import ModuleRules.Proofs.File.Overwrite

/-!
# Making directories

A tree with all directories of another one is followed wherever that one is.
So a directory that was made is found at its path, whatever the spelling
(`has_of_makeDirectories`).
-/

namespace ModuleRules.FileTree

open ModuleRules.Path

variable {t u : FileTree} {k l m : Location} {p n : Text}

theorem has_of_isDirectory (h : t.isDirectory p = true) : t.has p = true := by
  unfold isDirectory at h
  unfold has
  split at h
  next he => rw [he]
  next => cases h

theorem IsShapedAs.has_eq (h : u.IsShapedAs t) (p : Text) : u.has p = t.has p := by
  have hresolve : u.resolve p = t.resolve p := by
    unfold resolve
    rw [h.enter_eq, h.start_eq]
  unfold has look
  rw [hresolve]
  cases t.resolve p with
  | error fault => rfl
  | ok l =>
    have hkind := h.kind l
    simp only [bind, Except.bind]
    cases hu : u.entry? l <;> cases ht : t.entry? l <;> simp_all

/-- What can be entered can be entered in every tree with the directories of this one. -/
theorem enter_of_directories (h : ∀ l, t.entry? l = some .directory → u.entry? l = some .directory)
    (hl : t.enter l n = .ok m) : u.enter l n = .ok m := by
  have hdir := directory_of_enter hl
  unfold enter at hl ⊢
  rw [hdir] at hl
  rw [h l hdir]
  exact hl

theorem foldlM_enter_of_directories
    (h : ∀ l, t.entry? l = some .directory → u.entry? l = some .directory) :
    ∀ {ns : List Text} {l : Location}, ns.foldlM t.enter l = .ok m → ns.foldlM u.enter l = .ok m
  | [], _, hl => hl
  | n :: ns, l, hl => by
    obtain ⟨k, hk, hrest⟩ := bind_eq_ok.1 ((List.foldlM_cons ..).symm.trans hl)
    rw [foldlM_enter_cons (enter_of_directories h hk)]
    exact foldlM_enter_of_directories h hrest

theorem foldlM_enter_empty (hl : t.entry? l = some .directory) :
    ∀ {ns : List Text}, (∀ n ∈ ns, n = []) → ns.foldlM t.enter l = .ok l
  | [], _ => rfl
  | n :: ns, h => by
    obtain ⟨rfl, hns⟩ := List.forall_mem_cons.1 h
    rw [foldlM_enter_cons (enter_of_not_isStep hl rfl)]
    exact foldlM_enter_empty hl hns

/-- The pieces behind the last one of a target are empty. -/
theorem pieces_eq_of_target (h : (target p).last ≠ []) : ∃ slashes : List Text,
    pieces p = (target p).above ++ (target p).last :: slashes ∧ ∀ n ∈ slashes, n = [] := by
  have hsplit := (pieces p).reverse.takeWhile_append_dropWhile (p := (· = []))
  unfold target at h ⊢
  cases hdrop : (pieces p).reverse.dropWhile (· = []) with
  | nil => simp [hdrop] at h
  | cons last above =>
    rw [hdrop] at hsplit
    refine ⟨((pieces p).reverse.takeWhile (· = [])).reverse, ?_, fun n hn => ?_⟩
    · have hpieces := congrArg List.reverse hsplit
      simpa [hdrop] using hpieces.symm
    · simpa using List.mem_takeWhile_imp (List.mem_reverse.1 hn)

theorem parentOf_eq_ok (h : t.parentOf p = .ok l) : pathFault? p = none ∧
    (target p).above.foldlM t.enter (t.start p) = .ok l ∧ t.entry? l = some .directory := by
  unfold parentOf at h
  split at h
  · cases h
  next hfault =>
    obtain ⟨k, hk, hl⟩ := bind_eq_ok.1 h
    have hdir := directory_of_enter hl
    rw [enter_of_not_isStep hdir rfl] at hl
    cases hl
    exact ⟨hfault, hk, hdir⟩

theorem isProper_of_enter (hname : isName n = true) (hslash : '/' ∉ n) (hnul : '\x00' ∉ n)
    (h : t.enter l n = .ok m) : isProper n = true ∧ m = l ++ [n] := by
  have hne : n ≠ [] ∧ n ≠ dot ∧ n ≠ dots := by simpa [isName, and_assoc] using hname
  have hfits : (Text.Utf8.encode n).length ≤ maxName := by
    have hdir := directory_of_enter h
    by_contra hlong
    simp [enter, hdir, hne, Nat.not_le.1 hlong] at h
  exact ⟨isProper_iff.2 ⟨hne, hslash, hnul, hfits⟩, eq_append_of_enter hname h⟩

/-- The directory `n` in `d` is new, and is where the path leads once it is made. -/
structure IsMade (t : FileTree) (p : Text) (d : Location) (n : Text) : Prop where
  proper : isProper n = true
  place : t.entry? d = some .directory
  new : t.entry? (d ++ [n]) = none
  leads : (t.put (d ++ [n]) .directory).resolve p = .ok (d ++ [n])

/-- The way to a directory that was made is the one that the tree before allows. -/
theorem makeDirectory_eq_ok (h : t.makeDirectory p = .ok u) :
    ∃ d n, t.IsMade p d n ∧ u = t.put (d ++ [n]) .directory := by
  unfold makeDirectory at h
  obtain ⟨d, hd, h⟩ := bind_eq_ok.1 h
  obtain ⟨hfault, habove, hplace⟩ := parentOf_eq_ok hd
  simp only at h
  split at h
  · cases h
  next hname =>
    have hname : isName (target p).last = true := by simpa using hname
    obtain ⟨m, henter, h⟩ := bind_eq_ok.1 h
    split at h
    · cases h
    next hnew =>
      cases h
      obtain ⟨slashes, hpieces, hslashes⟩ := pieces_eq_of_target (p := p) (by simp_all [isName])
      have hlast : (target p).last ∈ pieces p := by simp [hpieces]
      have hnul : '\x00' ∉ (target p).last := by
        intro hc
        simp [pathFault?, Text.mem_of_mem_split hlast hc] at hfault
      obtain ⟨hproper, rfl⟩ :=
        isProper_of_enter hname (Text.not_mem_of_mem_split hlast) hnul henter
      refine ⟨d, _, ⟨hproper, hplace, hnew, ?_⟩, rfl⟩
      have hkeep : ∀ k, t.entry? k = some .directory →
          FileTree.entry? (t.put (d ++ [(target p).last]) .directory) k = some .directory :=
        fun k => directory_put (by simp) fun _ => rfl
      have hstart : FileTree.start (t.put (d ++ [(target p).last]) .directory) p = t.start p := rfl
      rw [resolve_of_pathFault? hfault, hstart, hpieces,
        foldlM_enter_append (foldlM_enter_of_directories hkeep habove),
        foldlM_enter_cons (enter_of_directories hkeep henter),
        foldlM_enter_empty (entry?_put_self (by simp) ..) hslashes]

theorem isDirectory_of_resolve (hp : t.resolve p = .ok l) (hl : t.entry? l = some .directory) :
    t.isDirectory p = true := by
  simp [isDirectory, look, hp, hl, bind, Except.bind]

theorem isDirectory_of_makeDirectory (h : t.makeDirectory p = .ok u) : u.isDirectory p = true := by
  obtain ⟨d, n, hmade, rfl⟩ := makeDirectory_eq_ok h
  exact isDirectory_of_resolve hmade.leads (entry?_put_self (by simp) ..)

/-- The directory is made, or the tree stays, which is no fault if the directory is there. -/
def MakesOrKeeps (t : FileTree) (p : Text) (u : FileTree) (fault : Option FileFault) : Prop :=
  t.makeDirectory p = .ok u ∨ u = t ∧ (fault = none → t.isDirectory p = true)

theorem makesOrKeeps_of_eq {fault : FileFault} {fault' : Option FileFault}
    (h : (t, if t.isDirectory p then none else some fault) = (u, fault')) :
    t.MakesOrKeeps p u fault' := by
  obtain ⟨rfl, rfl⟩ := Prod.mk.inj h
  refine .inr ⟨rfl, fun hnone => ?_⟩
  by_contra hp
  simp [hp] at hnone

theorem makeWithin_cases {fault : Option FileFault} {above : List Text}
    (h : t.makeWithin p above = (u, fault)) : t.MakesOrKeeps p u fault ∨
      ∃ q rest v fault', above = q :: rest ∧ t.makeWithin q rest = (v, fault') ∧
        v.MakesOrKeeps p u fault := by
  unfold makeWithin at h
  split at h
  next hmade =>
    cases h
    exact .inl (.inl hmade)
  next =>
    cases above with
    | nil =>
      cases h
      exact .inl (.inr ⟨rfl, by simp⟩)
    | cons q rest =>
      refine .inr ⟨q, rest, _, _, rfl, rfl, ?_⟩
      simp only at h
      split at h
      next hwithin =>
        cases h
        rw [hwithin]
        exact .inr ⟨rfl, by simp⟩
      next hwithin =>
        rw [hwithin]
        split at h
        next hmade =>
          cases h
          exact .inl hmade
        next => exact makesOrKeeps_of_eq h
  next => exact .inl (makesOrKeeps_of_eq h)

theorem MakesOrKeeps.isDirectory (h : t.MakesOrKeeps p u none) : u.isDirectory p = true := by
  rcases h with h | ⟨rfl, h⟩
  · exact isDirectory_of_makeDirectory h
  · exact h rfl

theorem isDirectory_of_makeDirectories (h : t.makeDirectories p = (u, none)) :
    u.isDirectory p = true := by
  rcases makeWithin_cases h with h | ⟨_, _, _, _, -, -, h⟩ <;> exact h.isDirectory

theorem has_of_makeDirectories (h : t.makeDirectories p = (u, none)) : u.has p = true :=
  has_of_isDirectory (isDirectory_of_makeDirectories h)

end ModuleRules.FileTree
