import ModuleRules.Proofs.File.Tree

/-!
# Writing over files

A tree in which only contents differ is followed alike. So a path that leads
to a file can be written in every tree of the same shape, and the entry of
that file is all that changes (`write_of_resolve`).
-/

namespace ModuleRules

open ModuleRules.Path

def Entry.isDirectory : Entry → Bool
  | file _ => false
  | directory => true

namespace FileTree

/-- The trees have directories and files at the same locations. -/
structure IsShapedAs (u t : FileTree) : Prop where
  working : u.workingDirectory = t.workingDirectory
  kind : ∀ l, (u.entry? l).map Entry.isDirectory = (t.entry? l).map Entry.isDirectory

variable {t u : FileTree} {k l : Location} {p : Text}

theorem IsShapedAs.enter_eq (h : u.IsShapedAs t) : u.enter = t.enter := by
  funext l n
  have hkind := h.kind l
  unfold enter
  cases hu : u.entry? l with
  | none => cases ht : t.entry? l <;> simp_all
  | some e =>
    cases ht : t.entry? l with
    | none => simp_all
    | some e' => cases e <;> cases e' <;> simp_all [Entry.isDirectory]

theorem IsShapedAs.start_eq (h : u.IsShapedAs t) (p : Text) : u.start p = t.start p := by
  unfold start
  rw [h.working]

theorem IsShapedAs.exists_file (h : u.IsShapedAs t) {c : Bytes}
    (hl : t.entry? l = some (.file c)) : ∃ c', u.entry? l = some (.file c') := by
  have hkind := h.kind l
  rw [hl] at hkind
  cases hu : u.entry? l with
  | none => simp [hu] at hkind
  | some e => cases e <;> simp_all [Entry.isDirectory]

/-! ## Putting -/

theorem entry?_put (hl : l ≠ []) (e : Entry) (t : FileTree) (k : Location) :
    FileTree.entry? (t.put l e) k = if k = l then some e else t.entry? k := by
  unfold entry? put
  by_cases hk : k = []
  · simp [hk, Ne.symm hl]
  · by_cases hkl : k = l
    · simp [hkl, hl]
    · have hsame : (fun x : Location × Entry => decide (x.1 ≠ l) && decide (x.1 = k)) =
          fun x => decide (x.1 = k) := by
        funext x
        by_cases hx : x.1 = k <;> simp [hx, hkl]
      simp only [if_neg hk, if_neg hkl, List.find?_cons, decide_eq_false (Ne.symm hkl),
        List.find?_filter, Bool.decide_and, Bool.decide_eq_true]
      rw [hsame]

theorem entry?_put_self (hl : l ≠ []) (e : Entry) (t : FileTree) :
    FileTree.entry? (t.put l e) l = some e := (entry?_put hl e t l).trans (if_pos rfl)

/-- What is put in place of no directory leaves all directories there. -/
theorem directory_put {e : Entry} (hl : l ≠ [])
    (he : t.entry? l = some .directory → e = .directory) (hk : t.entry? k = some .directory) :
    FileTree.entry? (t.put l e) k = some .directory := by
  rw [entry?_put hl]
  split
  next heq =>
    rw [heq] at hk
    rw [he hk]
  next => exact hk

theorem ne_nil_of_file {c : Bytes} (hl : t.entry? l = some (.file c)) : l ≠ [] := by
  rintro rfl
  rw [t.entry?_nil] at hl
  cases hl

/-! ## Writing -/

/-- A path that leads to a file ends in the file's name. -/
theorem IsSound.exists_of_file (ht : t.IsSound) {c : Bytes} (hp : t.resolve p = .ok l)
    (hl : t.entry? l = some (.file c)) : ∃ above last d, pieces p = above ++ [last] ∧
      isName last = true ∧ above.foldlM t.enter (t.start p) = .ok d ∧
        t.entry? d = some .directory ∧ t.enter d last = .ok l := by
  rw [resolve_of_pathFault? (pathFault?_of_resolve hp)] at hp
  obtain ⟨above, last, hpieces⟩ := (List.eq_nil_or_concat' (pieces p)).resolve_left
    (Text.split_ne_nil p)
  rw [hpieces] at hp
  obtain ⟨d, habove, hlast⟩ := foldlM_enter_append_eq_ok hp
  obtain ⟨m, hm, hnil⟩ := bind_eq_ok.1 ((List.foldlM_cons ..).symm.trans hlast)
  cases hnil
  have hd := directory_of_enter hm
  refine ⟨above, last, d, hpieces, ?_, habove, hd, hm⟩
  have hstep : isStep last = true := by
    by_contra hno
    rw [enter_of_not_isStep hd (Bool.not_eq_true _ ▸ hno)] at hm
    cases hm
    rw [hd] at hl
    cases hl
  have hdots : last ≠ dots := by
    rintro rfl
    rw [eq_move_of_enter hstep hm, move, if_pos rfl, ht.entry?_dropLast hd] at hl
    cases hl
  simpa [isName, isStep, hdots] using hstep

theorem target_eq {above : List Text} {last : Text} (h : pieces p = above ++ [last])
    (hlast : last ≠ []) : target p = ⟨above, last, false⟩ := by
  unfold target
  simp [h, hlast]

theorem write_of_resolve (ht : t.IsSound) (h : u.IsShapedAs t) {c : Bytes}
    (hp : t.resolve p = .ok l) (hl : t.entry? l = some (.file c)) (content : Bytes) :
    u.write p content = .ok (u.put l (.file content)) := by
  obtain ⟨above, last, d, hpieces, hname, habove, hd, hlast⟩ := ht.exists_of_file hp hl
  have htarget := target_eq hpieces (by rintro rfl; cases hname)
  have hparent : u.parentOf p = .ok d := by
    unfold parentOf
    rw [pathFault?_of_resolve hp, htarget, h.enter_eq, h.start_eq]
    simp only [habove, bind, Except.bind]
    exact enter_of_not_isStep hd rfl
  obtain ⟨c', hu⟩ := h.exists_file hl
  unfold write
  rw [hparent]
  simp only [bind, Except.bind, htarget, hname, h.enter_eq, hlast, hu]
  rfl

end FileTree

end ModuleRules
