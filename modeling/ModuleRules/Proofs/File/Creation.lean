import ModuleRules.Proofs.File.Component
import ModuleRules.Proofs.File.Directory

/-!
# What comes into being

A sound tree stays sound when an entry is put into one of its directories.
Making a directory with those missing above it makes directories of the places
that its path passes through and changes nothing else, in whatever way the path
is spelled (`entry?_of_makeDirectories`). Writing a file changes its entry only.
-/

namespace ModuleRules.FileTree

open ModuleRules.Path

variable {t u v : FileTree} {k l m : Location} {p q n : Text}

/-! ## Sound trees -/

theorem IsSound.put (ht : t.IsSound) {e : Entry} (hl : t.entry? l = some .directory)
    (hn : isProper n = true) (he : t.entry? (l ++ [n]) = some .directory → e = .directory) :
    (t.put (l ++ [n]) e).IsSound := by
  have hkeep : ∀ k, t.entry? k = some .directory →
      FileTree.entry? (t.put (l ++ [n]) e) k = some .directory :=
    fun k => directory_put (by simp) he
  refine ⟨fun x hx => ?_, fun x hx => ?_, ?_, hkeep _ ht.working⟩
  · rcases List.mem_cons.1 hx with rfl | hx
    · intro i hi
      rcases List.mem_append.1 hi with hi | hi
      · exact ht.isProper_names hl i hi
      · exact List.mem_singleton.1 hi ▸ hn
    · exact ht.named x (List.mem_filter.1 hx).1
  · rcases List.mem_cons.1 hx with rfl | hx
    · apply hkeep
      rwa [List.dropLast_concat]
    · exact hkeep _ (ht.closed x (List.mem_filter.1 hx).1)
  · show ((l ++ [n]) :: (t.entries.filter (·.1 ≠ l ++ [n])).map (·.1)).Nodup
    refine List.nodup_cons.2 ⟨?_, (List.filter_sublist.map _).nodup ht.distinct⟩
    intro h
    obtain ⟨x, hx, heq⟩ := List.mem_map.1 h
    simpa [heq] using (List.mem_filter.1 hx).2

/-! ## Places that a path passes through -/

theorem mem_passed_iff : k ∈ t.passed p ↔ ∃ ss, ss <+: t.stepsTo p ∧ ss.foldl move [] = k := by
  simp [passed, mem_upward]

theorem passed_congr (h : u.workingDirectory = t.workingDirectory) (p : Text) :
    u.passed p = t.passed p := by
  unfold passed stepsTo start
  rw [h]

theorem passed_subset_of_mem_ancestors (hq : q ∈ ancestors p) (hne : q ≠ []) (hk : k ∈ t.passed q) :
    k ∈ t.passed p := by
  obtain ⟨hbegin, hsteps⟩ := prefix_of_mem_ancestorsUpTo hq
  have hstart : t.start q = t.start p := by
    obtain ⟨c, r, rfl⟩ := List.exists_cons_of_ne_nil hne
    obtain ⟨s, rfl⟩ := hbegin
    rfl
  obtain ⟨ss, hss, hk⟩ := mem_passed_iff.1 hk
  refine mem_passed_iff.2 ⟨ss, hss.trans ?_, hk⟩
  rw [stepsTo, stepsTo, hstart]
  exact (List.prefix_append_right_inj _).2 hsteps

theorem IsSound.mem_passed_of_follow (ht : t.IsSound) (h : t.follow p = .ok l) : l ∈ t.passed p :=
  mem_passed_iff.2 ⟨t.stepsTo p, List.prefix_refl _, (ht.eq_of_follow h).symm⟩

/-- A name that is joined to a path is one place more. -/
theorem IsSound.passed_join (ht : t.IsSound) (hname : isName n = true) (hn : '/' ∉ n)
    (hp : t.follow p = .ok l) : t.passed (join p n) = (l ++ [n]) :: t.passed p := by
  have hplace : (t.stepsTo p ++ [n]).foldl move [] = l ++ [n] := by
    rw [List.foldl_append, ← ht.eq_of_follow hp]
    exact if_neg (isStep_of_isName hname).2
  rw [passed, stepsTo_join hname hn, upward_concat, List.map_cons, hplace, passed]

/-- A path that leads to a directory passes through directories only. -/
theorem IsSound.directory_of_mem_passed (ht : t.IsSound) (h : t.follow p = .ok l)
    (hl : t.entry? l = some .directory) (hk : k ∈ t.passed p) : t.entry? k = some .directory := by
  obtain ⟨ss, hss, rfl⟩ := mem_passed_iff.1 hk
  have hway := foldlM_enter_prefix ht.isStep_of_mem_stepsTo (ht.foldlM_of_follow h) hl hss
  exact hway.2

/-! ## Growth -/

/-- In `u` some of the places are new directories, and all else is as in `t`. -/
structure GrowsTo (t u : FileTree) (places : Location → Prop) : Prop where
  sound : u.IsSound
  working : u.workingDirectory = t.workingDirectory
  entry : ∀ k, u.entry? k = t.entry? k ∨
    places k ∧ t.entry? k = none ∧ u.entry? k = some .directory

variable {P Q : Location → Prop}

theorem IsSound.growsTo_self (ht : t.IsSound) : t.GrowsTo t P := ⟨ht, rfl, fun _ => .inl rfl⟩

theorem GrowsTo.trans (h : t.GrowsTo u P) (h' : u.GrowsTo v P) : t.GrowsTo v P := by
  refine ⟨h'.sound, h'.working.trans h.working, fun k => ?_⟩
  rcases h'.entry k with hv | ⟨hk, hu, hv⟩
  · rw [hv]
    exact h.entry k
  · rcases h.entry k with heq | ⟨-, -, hdir⟩
    · exact .inr ⟨hk, heq ▸ hu, hv⟩
    · rw [hdir] at hu
      cases hu

theorem GrowsTo.mono (h : t.GrowsTo u P) (hPQ : ∀ k, P k → Q k) : t.GrowsTo u Q :=
  ⟨h.sound, h.working, fun k => (h.entry k).imp id fun ⟨hk, hrest⟩ => ⟨hPQ k hk, hrest⟩⟩

theorem IsSound.growsTo_of_makeDirectory (ht : t.IsSound) (h : t.makeDirectory p = .ok u) :
    t.GrowsTo u (· ∈ t.passed p) := by
  obtain ⟨d, n, hmade, rfl⟩ := makeDirectory_eq_ok h
  have hsound : (t.put (d ++ [n]) .directory).IsSound :=
    ht.put hmade.place hmade.proper fun _ => rfl
  refine ⟨hsound, rfl, fun k => ?_⟩
  rw [entry?_put (by simp)]
  by_cases hk : k = d ++ [n]
  · subst hk
    exact .inr ⟨hsound.mem_passed_of_follow (follow_of_resolve hmade.leads), hmade.new, if_pos rfl⟩
  · exact .inl (if_neg hk)

theorem MakesOrKeeps.growsTo {fault : Option FileFault} (h : t.MakesOrKeeps p u fault)
    (ht : t.IsSound) : t.GrowsTo u (· ∈ t.passed p) := by
  rcases h with h | ⟨rfl, -⟩
  · exact ht.growsTo_of_makeDirectory h
  · exact ht.growsTo_self

theorem IsSound.growsTo_of_makeWithin : ∀ {above : List Text} {p : Text} {u : FileTree}
    {fault : Option FileFault}, t.IsSound → t.makeWithin p above = (u, fault) →
      t.GrowsTo u fun k => ∃ q ∈ p :: above, k ∈ t.passed q := by
  intro above
  induction above with
  | nil =>
    intro p u fault ht h
    rcases makeWithin_cases h with h | ⟨_, _, _, _, hnil, -⟩
    · exact (h.growsTo ht).mono fun k hk => ⟨p, List.mem_cons_self, hk⟩
    · cases hnil
  | cons q above ih =>
    intro p u fault ht h
    rcases makeWithin_cases h with h | ⟨_, _, v, fault', heq, hwithin, h⟩
    · exact (h.growsTo ht).mono fun k hk => ⟨p, List.mem_cons_self, hk⟩
    · obtain ⟨rfl, rfl⟩ := List.cons.inj heq
      have habove := ih ht hwithin
      refine (habove.mono fun k hk => ?_).trans ((h.growsTo habove.sound).mono fun k hk => ?_)
      · obtain ⟨r, hr, hk⟩ := hk
        exact ⟨r, List.mem_cons_of_mem p hr, hk⟩
      · rw [passed_congr habove.working] at hk
        exact ⟨p, List.mem_cons_self, hk⟩

theorem IsSound.growsTo_of_makeDirectories (ht : t.IsSound) {fault : Option FileFault}
    (h : t.makeDirectories p = (u, fault)) : t.GrowsTo u (· ∈ t.passed p) := by
  refine (ht.growsTo_of_makeWithin h).mono fun k hk => ?_
  obtain ⟨q, hq, hk⟩ := hk
  rcases List.mem_cons.1 hq with rfl | hq
  · exact hk
  · obtain ⟨hq, hne⟩ := List.mem_filter.1 hq
    exact passed_subset_of_mem_ancestors (List.mem_of_mem_tail hq) (by simpa using hne) hk

theorem exists_of_isDirectory (h : t.isDirectory p = true) :
    ∃ l, t.resolve p = .ok l ∧ t.entry? l = some .directory := by
  unfold isDirectory at h
  split at h
  next hlook =>
    obtain ⟨l, hl, hentry⟩ := bind_eq_ok.1 hlook
    split at hentry
    next he => exact ⟨l, hl, (Except.ok.inj hentry) ▸ he⟩
    next => cases hentry
  next => cases h

/-- **The places that the path of a new directory passes through become directories**, and nothing
else changes. -/
theorem IsSound.entry?_of_makeDirectories (ht : t.IsSound)
    (h : t.makeDirectories p = (u, none)) (k : Location) :
    u.entry? k = if k ∈ t.passed p then some .directory else t.entry? k := by
  have hgrows := ht.growsTo_of_makeDirectories h
  obtain ⟨l, hl, hdir⟩ := exists_of_isDirectory (isDirectory_of_makeDirectories h)
  by_cases hk : k ∈ t.passed p
  · rw [if_pos hk]
    rw [← passed_congr hgrows.working] at hk
    exact hgrows.sound.directory_of_mem_passed (follow_of_resolve hl) hdir hk
  · rw [if_neg hk]
    exact (hgrows.entry k).resolve_right fun h => hk h.1

/-! ## Writing -/

/-- A file that is written under a name comes to be where the path leads, and not in place of a
directory. -/
theorem write_join_eq_ok {content : Bytes} (hname : isName n = true) (hn : '/' ∉ n)
    (hnul : '\x00' ∉ n) (h : t.write (join p n) content = .ok u) :
    ∃ l, t.follow p = .ok l ∧ t.entry? l = some .directory ∧ isProper n = true ∧
      t.entry? (l ++ [n]) ≠ some .directory ∧ u = t.put (l ++ [n]) (.file content) := by
  obtain ⟨above, hpieces, -⟩ := exists_pieces_join p hn
  have hne : n ≠ [] := by
    intro hnil
    simp [hnil, isName] at hname
  unfold write at h
  obtain ⟨d, hd, h⟩ := bind_eq_ok.1 h
  obtain ⟨-, habove, -⟩ := parentOf_eq_ok hd
  simp only [target_eq hpieces hne] at h habove
  rw [if_neg (by simp [hname])] at h
  obtain ⟨m, henter, h⟩ := bind_eq_ok.1 h
  have hfollow : t.follow (join p n) = .ok m := by
    rw [follow, hpieces]
    exact foldlM_enter_concat_eq_ok.2 ⟨d, habove, henter⟩
  obtain ⟨l, hl, henter⟩ := (follow_join_eq_ok hn).1 hfollow
  obtain ⟨hproper, rfl⟩ := isProper_of_enter hname hn hnul henter
  split at h
  next => cases h
  next hfile =>
    exact ⟨l, hl, directory_of_enter henter, hproper, hfile, (Except.ok.inj h).symm⟩

end ModuleRules.FileTree
