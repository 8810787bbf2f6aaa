import Mathlib.Data.List.Sort
import ModuleRules.Descriptor.Collection
import ModuleRules.Proofs.Ascending
import ModuleRules.Proofs.File.Component

/-!
# Which descriptor files are collected

A path means the file that it leads to, or the descriptor files below the
directory that it leads to; the path of such a file is the one that was given,
with the names on the way joined to it. What is collected for some paths are
these files, each path once and in order, so neither the order of the given
paths nor their number plays a part (`files_of_collect`).
-/

namespace ModuleRules

open ModuleRules.Path

/-! ## Files below a location -/

namespace FileTree

variable {t : FileTree} {l m : Location} {p name : Text} {way : List Text}

theorem below?_eq_some_iff : ∀ {l m : Location}, below? l m = some way ↔ m = l ++ way
  | [], m => by simp [below?]
  | a :: l, [] => by simp [below?]
  | a :: l, b :: m => by
    have ih := below?_eq_some_iff (l := l) (m := m)
    rw [below?]
    by_cases h : a = b
    · simp [h, ih]
    · simp [h, Ne.symm h]

theorem find?_of_mem_entries : ∀ {es : List (Location × Entry)} {e : Entry},
    (es.map (·.1)).Nodup → (l, e) ∈ es → es.find? (·.1 = l) = some (l, e)
  | x :: es, e, hnodup, h => by
    obtain ⟨hx, hnodup⟩ := List.nodup_cons.1 hnodup
    rcases List.mem_cons.1 h with rfl | h
    · simp
    · have hne : x.1 ≠ l := by
        intro heq
        exact hx (List.mem_map.2 ⟨(l, e), h, heq.symm⟩)
      rw [List.find?_cons_of_neg (by simpa using hne), find?_of_mem_entries hnodup h]

theorem IsSound.entry?_eq_some_iff (ht : t.IsSound) {e : Entry} (hl : l ≠ []) :
    t.entry? l = some e ↔ (l, e) ∈ t.entries := by
  refine ⟨fun h => mem_entries h hl, fun h => ?_⟩
  unfold entry?
  rw [if_neg hl, find?_of_mem_entries ht.distinct h]
  rfl

theorem IsSound.mem_filesNamed_iff (ht : t.IsSound) : way ∈ t.filesNamed name l ↔
    (∃ content, t.entry? (l ++ way) = some (.file content)) ∧ way.getLast? = some name := by
  have hentry : way.getLast? = some name → ∀ e, t.entry? (l ++ way) = some e ↔
      (l ++ way, e) ∈ t.entries := by
    intro hlast e
    refine ht.entry?_eq_some_iff ?_
    intro hnil
    rw [(List.append_eq_nil_iff.1 hnil).2] at hlast
    cases hlast
  rw [filesNamed, List.mem_filterMap]
  constructor
  · intro ⟨⟨m, e⟩, hmem, h⟩
    simp only at h
    split at h
    next content way' hway =>
      split at h
      next hlast =>
        cases h
        obtain rfl := below?_eq_some_iff.1 hway
        exact ⟨⟨content, (hentry hlast _).2 hmem⟩, hlast⟩
      next => cases h
    next => cases h
  · intro ⟨⟨content, hcontent⟩, hlast⟩
    refine ⟨_, (hentry hlast _).1 hcontent, ?_⟩
    simp [below?_eq_some_iff.2 rfl, hlast]

/-- The way down to an entry can be gone. -/
theorem IsSound.foldlM_enter_way (ht : t.IsSound) {e : Entry} (h : t.entry? (l ++ way) = some e)
    (hl : t.entry? l = some .directory) : way.foldlM t.enter l = .ok (l ++ way) := by
  rw [← foldlM_enter_append (ht.foldlM_enter hl)]
  exact ht.foldlM_enter h

end FileTree

namespace DescriptorFiles

open FileTree

variable {t : FileTree} {l : Location} {p q : Text} {way : List Text}

/-! ## What a path means -/

/-- The path means the file that the way leads to from where the path leads. -/
inductive Means (t : FileTree) (p : Text) : Location → List Text → Prop
  | itself {l : Location} {content : Bytes} (hp : t.resolve p = .ok l)
    (hfile : t.entry? l = some (.file content)) : Means t p l []
  | below {l : Location} {way : List Text} {content : Bytes} (hp : t.resolve p = .ok l)
    (hdir : t.entry? l = some .directory) (hfile : t.entry? (l ++ way) = some (.file content))
    (hname : way.getLast? = some fileName) : Means t p l way

theorem Means.resolve_eq (h : Means t p l way) : t.resolve p = .ok l := by
  cases h with
  | itself hp => exact hp
  | below hp => exact hp

theorem Means.exists_file (h : Means t p l way) :
    ∃ content, t.entry? (l ++ way) = some (.file content) := by
  cases h with
  | itself hp hfile => exact ⟨_, (List.append_nil l).symm ▸ hfile⟩
  | below hp hdir hfile => exact ⟨_, hfile⟩

theorem meant_of_file {content : Bytes} (hp : t.resolve p = .ok l)
    (hl : t.entry? l = some (.file content)) : meant t p = [p] := by
  simp [meant, look, hp, hl, bind, Except.bind]

theorem meant_of_directory (hp : t.resolve p = .ok l) (hl : t.entry? l = some .directory) :
    meant t p = (t.filesNamed fileName l).map (under p) := by
  simp [meant, look, hp, hl, bind, Except.bind]

theorem meant_of_nothing (h : ∀ l, t.resolve p = .ok l → t.entry? l = none) : meant t p = [] := by
  unfold meant look
  cases hp : t.resolve p with
  | error fault => simp [bind, Except.bind]
  | ok l => simp [h l hp, bind, Except.bind]

theorem mem_meant_iff (ht : t.IsSound) :
    q ∈ meant t p ↔ ∃ l way, Means t p l way ∧ q = under p way := by
  constructor
  · intro h
    by_cases hentry : ∃ l e, t.resolve p = .ok l ∧ t.entry? l = some e
    · obtain ⟨l, e, hp, hl⟩ := hentry
      cases e with
      | file content =>
        rw [meant_of_file hp hl] at h
        exact ⟨l, [], .itself hp hl, List.mem_singleton.1 h⟩
      | directory =>
        rw [meant_of_directory hp hl] at h
        obtain ⟨way, hway, rfl⟩ := List.mem_map.1 h
        obtain ⟨⟨content, hfile⟩, hname⟩ := ht.mem_filesNamed_iff.1 hway
        exact ⟨l, way, .below hp hl hfile hname, rfl⟩
    · have hnothing : ∀ l, t.resolve p = .ok l → t.entry? l = none := by
        intro l hp
        cases hl : t.entry? l with
        | none => rfl
        | some e => exact absurd ⟨l, e, hp, hl⟩ hentry
      rw [meant_of_nothing hnothing] at h
      cases h
  · intro ⟨l, way, h, hq⟩
    cases h with
    | itself hp hfile => simp [meant_of_file hp hfile, hq, under]
    | below hp hdir hfile hname =>
      rw [meant_of_directory hp hdir, hq]
      exact List.mem_map_of_mem (ht.mem_filesNamed_iff.2 ⟨⟨_, hfile⟩, hname⟩)

theorem Means.isProper_way (ht : t.IsSound) (h : Means t p l way) :
    ∀ n ∈ way, isProper n = true := by
  obtain ⟨content, hfile⟩ := h.exists_file
  intro n hn
  exact ht.isProper_names hfile n (List.mem_append_right l hn)

/-- The names on the way are the last components of the file's path. -/
theorem components_under (p : Text) : ∀ {way : List Text}, (∀ n ∈ way, isProper n = true) →
    components (under p way) = components p ++ way.map .name
  | [], _ => by simp [under]
  | n :: way, h => by
    obtain ⟨hn, hway⟩ := List.forall_mem_cons.1 h
    obtain ⟨hname, hslash⟩ := isName_of_isProper hn
    have ih := components_under (join p n) hway
    rw [components_join p hname hslash, List.append_assoc] at ih
    exact ih

theorem follow_under : ∀ {way : List Text} {p : Text} {l m : Location},
    (∀ n ∈ way, isProper n = true) → t.follow p = .ok l → way.foldlM t.enter l = .ok m →
      t.follow (under p way) = .ok m
  | [], p, l, m, _, hp, hm => by
    cases hm
    exact hp
  | n :: way, p, l, m, h, hp, hm => by
    obtain ⟨hn, hway⟩ := List.forall_mem_cons.1 h
    obtain ⟨k, hk, hm⟩ := bind_eq_ok.1 ((List.foldlM_cons ..).symm.trans hm)
    have hjoin := (follow_join_eq_ok (isName_of_isProper hn).2).2 ⟨l, hp, hk⟩
    have ih := follow_under hway hjoin hm
    exact ih

theorem Means.follow_under (ht : t.IsSound) (h : Means t p l way) :
    t.follow (under p way) = .ok (l ++ way) := by
  refine DescriptorFiles.follow_under (h.isProper_way ht) (follow_of_resolve h.resolve_eq) ?_
  cases h with
  | itself => exact congrArg Except.ok (List.append_nil l).symm
  | below hp hdir hfile => exact ht.foldlM_enter_way hfile hdir

/-! ## What is collected -/

theorem mem_flatMap_meant_iff (ht : t.IsSound) {paths : List Text} :
    q ∈ paths.flatMap (meant t) ↔ ∃ p ∈ paths, ∃ l way, Means t p l way ∧ q = under p way := by
  simp only [List.mem_flatMap, mem_meant_iff ht]

theorem exists_means_of_mem_files (ht : t.IsSound) {paths : List Text}
    (h : q ∈ (collect t paths).files) :
    ∃ p ∈ paths, ∃ l way, Means t p l way ∧ q = under p way :=
  (mem_flatMap_meant_iff ht).1 (Ascending.mem_ofList q h)

theorem pairwise_files (t : FileTree) (paths : List Text) :
    (collect t paths).files.Pairwise (components · < components ·) :=
  (Ascending.pairwise_ofList Path.key List.lt_trans (paths.flatMap (meant t))).imp
    key_lt_key_iff.1

theorem mem_components_files_iff (ht : t.IsSound) {paths : List Text} {cs : List Component} :
    cs ∈ (collect t paths).files.map components ↔
      ∃ p ∈ paths, ∃ l way, Means t p l way ∧ cs = components p ++ way.map .name := by
  have hkeys (ps : List Text) :
      cs.map Component.key ∈ ps.map Path.key ↔ cs ∈ ps.map components := by
    rw [← List.mem_map_of_injective Component.key_injective.list_map, List.map_map]
    rfl
  have hfiles : cs ∈ (collect t paths).files.map components ↔
      cs ∈ (paths.flatMap (meant t)).map components := by
    rw [← hkeys, ← hkeys]
    exact Ascending.mem_map_ofList Path.key fun h h' => List.le_antisymm h' h
  rw [hfiles, List.mem_map]
  constructor
  · intro ⟨q, hq, hcs⟩
    obtain ⟨p, hp, l, way, hmeans, rfl⟩ := (mem_flatMap_meant_iff ht).1 hq
    rw [components_under p (hmeans.isProper_way ht)] at hcs
    exact ⟨p, hp, l, way, hmeans, hcs.symm⟩
  · intro ⟨p, hp, l, way, hmeans, hcs⟩
    refine ⟨under p way, (mem_flatMap_meant_iff ht).2 ⟨p, hp, l, way, hmeans, rfl⟩, ?_⟩
    rw [components_under p (hmeans.isProper_way ht), hcs]

theorem files_congr (ht : t.IsSound) {paths paths' : List Text}
    (h : ∀ p, p ∈ paths ↔ p ∈ paths') :
    (collect t paths).files.map components = (collect t paths').files.map components := by
  have hascending (ps : List Text) :
      ((collect t ps).files.map components).Pairwise (· < ·) :=
    List.pairwise_map.2 (pairwise_files t ps)
  refine (hascending paths).eq_of_mem_iff (hascending paths') ?_
  intro cs
  simp only [mem_components_files_iff ht, h]

/-- **The collected files are those that the paths mean, in order and no path twice**, whatever
the order of the given paths and however often they are given. The missing paths are the given ones
that lead neither to a file nor to a directory, as often as they are given. -/
theorem files_of_collect (ht : t.IsSound) (paths : List Text) :
    (collect t paths).files.Pairwise (components · < components ·) ∧
      (∀ cs, cs ∈ (collect t paths).files.map components ↔
        ∃ p ∈ paths, ∃ l way, Means t p l way ∧ cs = components p ++ way.map .name) ∧
      (collect t paths).missing.Sublist paths ∧
      (∀ p, (collect t paths).missing.count p =
        if t.isFile p ∨ t.isDirectory p then 0 else paths.count p) ∧
      ∀ paths', (∀ p, p ∈ paths' ↔ p ∈ paths) →
        (collect t paths').files.map components = (collect t paths).files.map components := by
  refine ⟨pairwise_files t paths, fun cs => mem_components_files_iff ht,
    List.filter_sublist, fun p => ?_, fun paths' h => files_congr ht h⟩
  by_cases hp : t.isFile p = true ∨ t.isDirectory p = true
  · rw [if_pos hp, List.count_eq_zero]
    intro hmem
    have hneither := (List.mem_filter.1 hmem).2
    rcases hp with hp | hp <;> simp [hp] at hneither
  · rw [if_neg hp]
    exact List.count_filter (by simpa using hp)

theorem files_of_collect_overlapping :
    let t : FileTree :=
      ⟨[(["a"], .directory), (["a", "x"], .directory), (["a.b"], .directory),
        (["a", "other"], .file []), (["a", "x", fileName], .file []),
        (["a.b", fileName], .file [])], []⟩
    let paths : List Text := ["gone", "a.b/", "a", "gone", "a//other", "a.b/module.json"]
    t.IsSound ∧
      (collect t paths).files = (["a//other", "a/x/module.json", "a.b/module.json"] : List Text) ∧
      (collect t paths).missing = (["gone", "gone"] : List Text) ∧
      (collect t paths.reverse).files.map components = (collect t paths).files.map components := by
  intro t paths
  have ht : t.IsSound := by decide +kernel
  obtain ⟨-, -, -, -, hsame⟩ := files_of_collect ht paths
  exact ⟨ht, by decide +kernel, by decide +kernel, hsame _ (by simp)⟩

end DescriptorFiles

end ModuleRules
