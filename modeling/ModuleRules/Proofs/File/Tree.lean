import ModuleRules.File.Tree
import ModuleRules.Proofs.File.Path
import ModuleRules.Proofs.Success

/-!
# Following paths through a tree

In a sound tree every entry stands in a directory, as does the working
directory, so a path that can be followed goes through directories only, and
where it leads is told by its steps (`foldlM_enter_prefix`).
-/

namespace ModuleRules

open ModuleRules.Path

def Path.move (l : Location) (step : Text) : Location :=
  if step = dots then l.dropLast else l ++ [step]

theorem Path.foldl_move {ss : List Text} (h : dots ∉ ss) (l : Location) : ss.foldl move l = l ++ ss := by
  induction ss generalizing l with
  | nil => simp
  | cons s ss ih =>
    obtain ⟨hs, hss⟩ := List.ne_and_not_mem_of_not_mem_cons h
    rw [List.foldl_cons, ih hss, move, if_neg (Ne.symm hs), List.append_assoc]
    rfl

namespace FileTree

def isProper (n : Text) : Bool :=
  isName n && '/' ∉ n && '\x00' ∉ n && (Text.Utf8.encode n).length ≤ maxName

structure IsSound (t : FileTree) : Prop where
  named : ∀ x ∈ t.entries, ∀ n ∈ x.1, isProper n = true
  closed : ∀ x ∈ t.entries, t.entry? x.1.dropLast = some .directory
  distinct : (t.entries.map (·.1)).Nodup
  working : t.entry? t.workingDirectory = some .directory

instance (t : FileTree) : Decidable t.IsSound :=
  decidable_of_iff ((∀ x ∈ t.entries, ∀ n ∈ x.1, isProper n = true) ∧
      (∀ x ∈ t.entries, t.entry? x.1.dropLast = some .directory) ∧
      (t.entries.map (·.1)).Nodup ∧ t.entry? t.workingDirectory = some .directory)
    ⟨fun ⟨h₁, h₂, h₃, h₄⟩ => ⟨h₁, h₂, h₃, h₄⟩, fun ⟨h₁, h₂, h₃, h₄⟩ => ⟨h₁, h₂, h₃, h₄⟩⟩

variable {t : FileTree} {l m : Location} {n : Text}

theorem isProper_iff : isProper n = true ↔
    (n ≠ [] ∧ n ≠ dot ∧ n ≠ dots) ∧ '/' ∉ n ∧ '\x00' ∉ n ∧
      (Text.Utf8.encode n).length ≤ maxName := by
  simp [isProper, isName, and_assoc]

theorem isStep_of_isName (h : isName n = true) : isStep n = true ∧ n ≠ dots := by
  simp_all [isName, isStep]

theorem isName_of_isProper (h : isProper n = true) : isName n = true ∧ '/' ∉ n := by
  obtain ⟨⟨hempty, hdot, hdots⟩, hslash, -⟩ := isProper_iff.1 h
  exact ⟨by simp [isName, hempty, hdot, hdots], hslash⟩

theorem isStep_of_isProper (h : isProper n = true) : isStep n = true ∧ n ≠ dots :=
  isStep_of_isName (isName_of_isProper h).1

/-! ## One piece -/

theorem directory_of_enter (h : t.enter l n = .ok m) : t.entry? l = some .directory := by
  unfold enter at h
  split at h
  · cases h
  · cases h
  · assumption

theorem enter_of_not_isStep (hl : t.entry? l = some .directory) (h : isStep n = false) :
    t.enter l n = .ok l := by
  have hn : n = [] ∨ n = dot := by
    by_cases hempty : n = []
    · exact .inl hempty
    · simp_all [isStep]
  simp [enter, hl, hn]

theorem eq_move_of_enter (hn : isStep n = true) (h : t.enter l n = .ok m) : m = move l n := by
  have hl := directory_of_enter h
  have hne : ¬ (n = [] ∨ n = dot) := by simpa [isStep] using hn
  simp only [enter, hl, if_neg hne] at h
  unfold move
  split at h
  next hdots => rw [if_pos hdots]; exact (Except.ok.inj h).symm
  next hdots =>
    rw [if_neg hdots]
    split at h
    · cases h
    · exact (Except.ok.inj h).symm

theorem eq_append_of_enter (hname : isName n = true) (h : t.enter l n = .ok m) :
    m = l ++ [n] := by
  obtain ⟨hstep, hdots⟩ := isStep_of_isName hname
  exact (eq_move_of_enter hstep h).trans (if_neg hdots)

theorem enter_of_isProper (hl : t.entry? l = some .directory) (h : isProper n = true) :
    t.enter l n = .ok (l ++ [n]) := by
  obtain ⟨⟨hempty, hdot, hdots⟩, -, -, hfits⟩ := isProper_iff.1 h
  simp [enter, hl, hempty, hdot, hdots, Nat.not_lt.2 hfits]

/-- What is no directory cannot be entered, whichever piece follows. -/
theorem enter_of_ne_directory (hl : t.entry? l ≠ some .directory) (k : Text) :
    ∃ fault, t.enter l n = .error fault ∧ t.enter l k = .error fault := by
  unfold enter
  split
  · exact ⟨_, rfl, rfl⟩
  · exact ⟨_, rfl, rfl⟩
  · exact absurd ‹_› hl

/-! ## Many pieces -/

theorem foldlM_enter_cons {ps : List Text} (h : t.enter l n = .ok m) :
    (n :: ps).foldlM t.enter l = ps.foldlM t.enter m := by
  rw [List.foldlM_cons, h]
  rfl

theorem foldlM_enter_cons_error {ps : List Text} {fault : FileFault}
    (h : t.enter l n = .error fault) : (n :: ps).foldlM t.enter l = .error fault := by
  rw [List.foldlM_cons, h]
  rfl

theorem foldlM_enter_append {ps qs : List Text} (h : ps.foldlM t.enter l = .ok m) :
    (ps ++ qs).foldlM t.enter l = qs.foldlM t.enter m := by
  rw [List.foldlM_append, h]
  rfl

theorem foldlM_enter_append_eq_ok {ps qs : List Text} (h : (ps ++ qs).foldlM t.enter l = .ok m) :
    ∃ k, ps.foldlM t.enter l = .ok k ∧ qs.foldlM t.enter k = .ok m := by
  rw [List.foldlM_append] at h
  exact bind_eq_ok.1 h

/-- In front of another piece, slashes and lone dots may be left out. -/
theorem foldlM_enter_filter (ps : List Text) :
    (ps ++ [n]).foldlM t.enter l = (ps.filter isStep ++ [n]).foldlM t.enter l := by
  induction ps generalizing l with
  | nil => rfl
  | cons p ps ih =>
    by_cases hl : t.entry? l = some .directory
    · by_cases hp : isStep p = true
      · rw [List.filter_cons_of_pos hp, List.cons_append, List.cons_append]
        cases h : t.enter l p with
        | error fault => rw [foldlM_enter_cons_error h, foldlM_enter_cons_error h]
        | ok m => rw [foldlM_enter_cons h, foldlM_enter_cons h, ih]
      · rw [Bool.not_eq_true] at hp
        rw [List.filter_cons_of_neg (by simp [hp]), List.cons_append,
          foldlM_enter_cons (enter_of_not_isStep hl hp), ih]
    · -- the piece and the one that takes its place in front fail alike
      obtain ⟨q, qs, hq⟩ : ∃ q qs, (p :: ps).filter isStep ++ [n] = q :: qs :=
        List.exists_cons_of_ne_nil (by simp)
      obtain ⟨fault, hp, hq'⟩ := enter_of_ne_directory (n := p) hl q
      rw [hq, List.cons_append, foldlM_enter_cons_error hp, foldlM_enter_cons_error hq']

theorem foldlM_enter_filter_eq_ok {ps : List Text} (h : ps.foldlM t.enter l = .ok m) :
    (ps.filter isStep).foldlM t.enter l = .ok m := by
  induction ps generalizing l with
  | nil => exact h
  | cons p ps ih =>
    obtain ⟨k, hk, hrest⟩ := bind_eq_ok.1 ((List.foldlM_cons ..).symm.trans h)
    by_cases hp : isStep p = true
    · rw [List.filter_cons_of_pos hp, foldlM_enter_cons hk, ih hrest]
    · rw [Bool.not_eq_true] at hp
      rw [enter_of_not_isStep (directory_of_enter hk) hp] at hk
      cases hk
      rw [List.filter_cons_of_neg (by simp [hp]), ih hrest]

theorem eq_foldl_of_foldlM_enter {ns : List Text} (hns : ∀ n ∈ ns, isStep n = true)
    (h : ns.foldlM t.enter l = .ok m) : m = ns.foldl move l := by
  induction ns generalizing l with
  | nil => exact (Except.ok.inj h).symm
  | cons n ns ih =>
    obtain ⟨hn, hns⟩ := List.forall_mem_cons.1 hns
    obtain ⟨k, hk, hrest⟩ := bind_eq_ok.1 ((List.foldlM_cons ..).symm.trans h)
    rw [List.foldl_cons, ← eq_move_of_enter hn hk]
    exact ih hns hrest

/-- On the way to a directory there are directories only. -/
theorem foldlM_enter_prefix {ns ms : List Text} (hns : ∀ n ∈ ns, isStep n = true)
    (h : ns.foldlM t.enter l = .ok m) (hm : t.entry? m = some .directory) (hms : ms <+: ns) :
    ms.foldlM t.enter l = .ok (ms.foldl move l) ∧
      t.entry? (ms.foldl move l) = some .directory := by
  obtain ⟨rest, rfl⟩ := hms
  obtain ⟨k, hk, hrest⟩ := foldlM_enter_append_eq_ok h
  obtain rfl := eq_foldl_of_foldlM_enter (fun n hn => hns n (List.mem_append_left _ hn)) hk
  refine ⟨hk, ?_⟩
  cases rest with
  | nil =>
    cases hrest
    exact hm
  | cons n rest =>
    obtain ⟨k, hk, -⟩ := bind_eq_ok.1 ((List.foldlM_cons ..).symm.trans hrest)
    exact directory_of_enter hk

/-! ## Sound trees -/

theorem mem_entries {e : Entry} (h : t.entry? l = some e) (hl : l ≠ []) : (l, e) ∈ t.entries := by
  unfold entry? at h
  rw [if_neg hl] at h
  obtain ⟨⟨k, e'⟩, hfind, rfl⟩ := Option.map_eq_some_iff.1 h
  obtain rfl : k = l := by simpa using List.find?_some hfind
  exact List.mem_of_find?_eq_some hfind

theorem entry?_nil (t : FileTree) : t.entry? [] = some .directory := if_pos rfl

namespace IsSound

variable (ht : t.IsSound)

include ht

theorem isProper_names {e : Entry} (h : t.entry? l = some e) : ∀ n ∈ l, isProper n = true := by
  by_cases hl : l = []
  · simp [hl]
  · exact ht.named _ (mem_entries h hl)

theorem entry?_dropLast {e : Entry} (h : t.entry? l = some e) :
    t.entry? l.dropLast = some .directory := by
  by_cases hl : l = []
  · rw [hl]
    exact t.entry?_nil
  · exact ht.closed _ (mem_entries h hl)

theorem foldlM_enter {e : Entry} (h : t.entry? l = some e) : l.foldlM t.enter [] = .ok l := by
  induction l using List.reverseRecOn generalizing e with
  | nil => rfl
  | append_singleton l n ih =>
    have hdir := ht.entry?_dropLast h
    rw [List.dropLast_concat] at hdir
    rw [foldlM_enter_append (ih hdir), foldlM_enter_cons (enter_of_isProper hdir
      (ht.isProper_names h n (by simp)))]
    rfl

theorem isProper_of_mem_workingDirectory : ∀ n ∈ t.workingDirectory, isProper n = true :=
  ht.isProper_names ht.working

theorem steps_workingPath : steps t.workingPath = t.workingDirectory := by
  have hproper := ht.isProper_of_mem_workingDirectory
  unfold workingPath
  rw [steps_slash_cons]
  by_cases h : t.workingDirectory = []
  · rw [h]
    rfl
  · rw [steps, pieces, Text.split_join h fun n hn => (isProper_iff.1 (hproper n hn)).2.1]
    exact List.filter_eq_self.2 fun n hn => (isStep_of_isProper (hproper n hn)).1

end IsSound

/-! ## Paths -/

def holdsFile (t : FileTree) (l : Location) : Bool :=
  match t.entry? l with
  | some (.file _) => true
  | _ => false

theorem isFile_of_resolve {p : Text} (h : t.resolve p = .ok l) : t.isFile p = t.holdsFile l := by
  unfold isFile look holdsFile
  rw [h]
  simp only [bind, Except.bind]
  cases t.entry? l with
  | none => rfl
  | some e => cases e <;> rfl

theorem resolve_of_pathFault? {p : Text} (h : pathFault? p = none) :
    t.resolve p = (pieces p).foldlM t.enter (t.start p) := by
  rw [resolve, h]

theorem pathFault?_of_resolve {p : Text} (h : t.resolve p = .ok l) : pathFault? p = none := by
  unfold resolve at h
  split at h
  · cases h
  · assumption

def stepsTo (t : FileTree) (p : Text) : List Text := t.start p ++ steps p

theorem IsSound.dots_not_mem_start (ht : t.IsSound) (p : Text) : dots ∉ t.start p := by
  intro h
  unfold start at h
  split at h
  · cases h
  · exact (isStep_of_isProper (ht.isProper_of_mem_workingDirectory _ h)).2 rfl

theorem IsSound.dots_not_mem_stepsTo (ht : t.IsSound) {p : Text} (h : dots ∉ pieces p) :
    dots ∉ t.stepsTo p := by
  intro hmem
  rcases List.mem_append.1 hmem with hmem | hmem
  · exact ht.dots_not_mem_start p hmem
  · exact h (List.mem_filter.1 hmem).1

theorem IsSound.isStep_of_mem_stepsTo (ht : t.IsSound) {p : Text} :
    ∀ n ∈ t.stepsTo p, isStep n = true := by
  intro n hn
  rcases List.mem_append.1 hn with h | h
  · unfold start at h
    split at h
    · cases h
    · exact (isStep_of_isProper (ht.isProper_of_mem_workingDirectory n h)).1
  · exact (List.mem_filter.1 h).2

/-- Where a path leads, however long it is. -/
def follow (t : FileTree) (p : Text) : Except FileFault Location :=
  (pieces p).foldlM t.enter (t.start p)

theorem follow_of_resolve {p : Text} (h : t.resolve p = .ok l) : t.follow p = .ok l := by
  rwa [resolve_of_pathFault? (pathFault?_of_resolve h)] at h

theorem IsSound.foldlM_start (ht : t.IsSound) (p : Text) :
    (t.start p).foldlM t.enter [] = .ok (t.start p) := by
  unfold start
  split
  · rfl
  · exact ht.foldlM_enter ht.working

theorem IsSound.foldlM_of_follow (ht : t.IsSound) {p : Text} (h : t.follow p = .ok l) :
    (t.stepsTo p).foldlM t.enter [] = .ok l := by
  rw [stepsTo, foldlM_enter_append (ht.foldlM_start p)]
  exact foldlM_enter_filter_eq_ok h

theorem IsSound.foldlM_stepsTo (ht : t.IsSound) {p : Text} (h : t.resolve p = .ok l) :
    (t.stepsTo p).foldlM t.enter [] = .ok l :=
  ht.foldlM_of_follow (follow_of_resolve h)

/-- Where a path leads is told by its steps. -/
theorem IsSound.eq_of_follow (ht : t.IsSound) {p : Text} (h : t.follow p = .ok l) :
    l = (t.stepsTo p).foldl move [] :=
  eq_foldl_of_foldlM_enter ht.isStep_of_mem_stepsTo (ht.foldlM_of_follow h)

/-- The directories that a path passes through from the root, the last first. -/
def passed (t : FileTree) (p : Text) : List Location :=
  (upward (t.stepsTo p)).map fun ss => ss.foldl move []

theorem IsSound.exists_absolute (ht : t.IsSound) {p : Text} (h : t.resolve p = .ok l) : ∃ q,
    absolute t.workingPath p = .ok q ∧ isAbsolute q = true ∧ steps q = t.stepsTo p := by
  have hp : p ≠ [] := by
    rintro rfl
    cases pathFault?_of_resolve h
  have hworking : isAbsolute t.workingPath = true := rfl
  obtain ⟨q, hq, habsolute, hsteps⟩ := Path.exists_absolute hworking hp
  refine ⟨q, hq, habsolute, ?_⟩
  rw [hsteps, ht.steps_workingPath]
  rfl

end FileTree

end ModuleRules
