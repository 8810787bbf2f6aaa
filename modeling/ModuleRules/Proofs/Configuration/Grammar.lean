import ModuleRules.Proofs.Configuration.Directive
import ModuleRules.Proofs.Text.Cell

/-!
# The grammar of directives

What may follow each keyword, as productions over rows of cells. The reader of
a line accepts exactly these and blames every other line on its keyword
(`parse_iff_production`).
-/

namespace ModuleRules

open Text

/-! ## References to modules -/

namespace ModuleRef

/-- A name, perhaps a slot, and after it perhaps a text that means nothing. -/
inductive IsWritten : ModuleRef → Text → Prop
  | name {name t : Text} (h : IsRow [some name] t) : IsWritten ⟨name, none⟩ t
  | slot {name t : Text} {slot : Option Text} (h : IsRow [some name, slot] t) :
    IsWritten ⟨name, slot⟩ t
  | more {name t : Text} {slot : Option Text} (h : IsRow [some name, slot] t) (rest : Text) :
    IsWritten ⟨name, slot⟩ (t ++ ':' :: rest)

def ofWords : List (Option Text) → ModuleRef
  | [] => ⟨[], none⟩
  | [name] => ⟨name.getD [], none⟩
  | name :: slot :: _ => ⟨name.getD [], slot⟩

theorem read_eq_ofWords (t : Text) : read t = ofWords (words t) := by
  have hname (p : Text) : (Segments.present? p).getD [] = p := by
    unfold Segments.present?
    split
    next h => exact h.symm
    next => rfl
  have hslot (p : Text) : slotOfPiece p = Segments.present? (trim p) := slotOfPiece_eq
  unfold read
  rw [words_eq]
  split
  next h => rw [h]; rfl
  next n h => simp [h, ofWords, hname]
  next n s r h => simp [h, ofWords, hname, hslot]

theorem isWritten_of_isRow {os : List (Option Text)} {t : Text} (h : IsRow os t)
    (hne : (ofWords os).name ≠ []) : (ofWords os).IsWritten t := by
  have hname {o : Option Text} (ho : o.getD [] ≠ []) : o = some (o.getD []) := by
    cases o with
    | none => exact absurd rfl ho
    | some name => rfl
  cases h with
  | last h =>
    rw [ofWords] at hne ⊢
    rw [hname hne] at h
    exact .name (.last h)
  | @cons o os p t h ht =>
    cases ht with
    | last hs =>
      rw [ofWords] at hne ⊢
      rw [hname hne] at h
      exact .slot (.cons h (.last hs))
    | @cons s os q t hs _ =>
      rw [ofWords] at hne ⊢
      rw [hname hne] at h
      have hrow := IsWritten.more (.cons h (.last hs)) t
      rwa [List.append_assoc] at hrow

/-- What was written is read, whatever follows a second colon. -/
theorem IsWritten.exists_words {r : ModuleRef} {t : Text} (h : r.IsWritten t) :
    ofWords (words t) = r ∧ some r.name ∈ words t := by
  cases h with
  | name h => simp [isRow_iff.1 h, ofWords]
  | slot h => simp [isRow_iff.1 h, ofWords]
  | more h rest => simp [words_append, isRow_iff.1 h, ofWords]

theorem IsWritten.slot_ne_nil {r : ModuleRef} {t : Text} (h : r.IsWritten t) :
    ∀ s ∈ r.slot, s ≠ [] := by
  cases h with
  | name h => simp
  | slot h | more h =>
    rintro s rfl
    exact ne_nil_of_mem_words (by rw [isRow_iff.1 h]; simp)

theorem IsWritten.identity_eq {r : ModuleRef} {t : Text} (h : r.IsWritten t) :
    r.identity = ⟨r.name, r.slot.getD mainSlot⟩ := by
  have hslot := h.slot_ne_nil
  obtain ⟨name, slot⟩ := r
  cases slot with
  | none => rfl
  | some s =>
    obtain ⟨c, s, rfl⟩ := List.exists_cons_of_ne_nil (hslot s rfl)
    rfl

end ModuleRef

/-! ## Selectors -/

namespace Selector

/-- A group and an artifact, perhaps a packaging, perhaps a classifier. -/
inductive IsWritten : Selector → Text → Prop
  | two {g a t : Text} (h : IsRow [some g, some a] t) : IsWritten ⟨g, a, none, none⟩ t
  | three {g a t : Text} {packaging : Option Text} (h : IsRow [some g, some a, packaging] t) :
    IsWritten ⟨g, a, packaging, none⟩ t
  | four {g a t : Text} {packaging classifier : Option Text}
    (h : IsRow [some g, some a, packaging, classifier] t) :
    IsWritten ⟨g, a, packaging, classifier⟩ t

theorem parse_eq_ok_iff_ofPieces? {t : Text} {s : Selector} : Selector.parse t = .ok s ↔
    Segments.ofPieces? ((split ':' (trim t)).map trim) = some s.segments ∧
      s.group ≠ [] ∧ s.artifact ≠ [] := by
  have hsegments (u : Segments) : ofSegments u = s ↔ u = s.segments := by
    cases u
    cases s
    simp [ofSegments, segments]
  unfold Selector.parse Segments.parse
  rw [map_eq_ok]
  simp only [hsegments, exists_eq_right]
  cases Segments.ofPieces? ((split ':' (trim t)).map trim) with
  | none => simp
  | some u =>
    by_cases hne : u.group = [] ∨ u.artifact = []
    · simp only [hne, if_true]
      refine iff_of_false (by simp) ?_
      rintro ⟨hu, hg, ha⟩
      cases hu
      exact hne.elim hg ha
    · simp only [hne, if_false, Except.ok.injEq, Option.some.injEq]
      constructor
      · rintro rfl
        exact ⟨rfl, not_or.1 hne⟩
      · exact And.left

theorem parse_eq_ok_iff_isWritten {t : Text} {s : Selector} :
    Selector.parse t = .ok s ↔ s.IsWritten t := by
  rw [parse_eq_ok_iff_ofPieces?]
  have hwords := words_eq t
  generalize (split ':' (trim t)).map trim = ps at hwords ⊢
  have hword {p : Text} (hp : p ≠ []) : Segments.present? p = some p := if_neg hp
  constructor
  · obtain ⟨group, artifact, packaging, classifier⟩ := s
    rintro ⟨hpieces, hg, ha⟩
    simp only [Segments.ofPieces?, segments] at hpieces
    split at hpieces
    next g a =>
      obtain ⟨rfl, rfl, rfl, rfl⟩ := by simpa using hpieces
      exact .two (isRow_iff.2 (by simp [hwords, hword hg, hword ha]))
    next g a p =>
      obtain ⟨rfl, rfl, rfl, rfl⟩ := by simpa using hpieces
      exact .three (isRow_iff.2 (by simp [hwords, hword hg, hword ha]))
    next g a p k =>
      obtain ⟨rfl, rfl, rfl, rfl⟩ := by simpa using hpieces
      exact .four (isRow_iff.2 (by simp [hwords, hword hg, hword ha]))
    next => cases hpieces
  · intro h
    cases h with
    | two h =>
      rw [isRow_iff.1 h] at hwords
      obtain ⟨_, rfl, hg, hwords⟩ := map_present?_eq_cons_iff.1 hwords.symm
      obtain ⟨_, rfl, ha, hwords⟩ := map_present?_eq_cons_iff.1 hwords
      obtain rfl := List.map_eq_nil_iff.1 hwords
      exact ⟨rfl, hg, ha⟩
    | three h =>
      rw [isRow_iff.1 h] at hwords
      obtain ⟨_, rfl, hg, hwords⟩ := map_present?_eq_cons_iff.1 hwords.symm
      obtain ⟨_, rfl, ha, hwords⟩ := map_present?_eq_cons_iff.1 hwords
      obtain ⟨p, rfl, rfl⟩ := List.map_eq_singleton_iff.1 hwords
      exact ⟨rfl, hg, ha⟩
    | four h =>
      rw [isRow_iff.1 h] at hwords
      obtain ⟨_, rfl, hg, hwords⟩ := map_present?_eq_cons_iff.1 hwords.symm
      obtain ⟨_, rfl, ha, hwords⟩ := map_present?_eq_cons_iff.1 hwords
      obtain ⟨p, _, rfl, rfl, hlast⟩ := List.map_eq_cons_iff.1 hwords
      obtain ⟨k, rfl, rfl⟩ := List.map_eq_singleton_iff.1 hlast
      exact ⟨rfl, hg, ha⟩

end Selector

/-! ## Directives -/

namespace Directive

theorem reference_eq_ok_iff_isWritten {t : Text} {r : ModuleRef} :
    reference t = .ok r ↔ r.IsWritten t := by
  rw [reference_eq_ok_iff, ModuleRef.read_eq_ofWords]
  constructor
  · rintro ⟨rfl, hne⟩
    exact ModuleRef.isWritten_of_isRow (isRow_words t) hne
  · intro h
    obtain ⟨hr, hname⟩ := h.exists_words
    exact ⟨hr.symm, ne_nil_of_mem_words hname⟩

/-- The module that a reference means, with the slot `main` where it names none. -/
theorem moduleId_eq_ok_iff {t : Text} {id : ModuleId} :
    moduleId t = .ok id ↔
      ∃ r : ModuleRef, r.IsWritten t ∧ id = ⟨r.name, r.slot.getD mainSlot⟩ := by
  unfold moduleId
  rw [map_eq_ok]
  constructor
  · rintro ⟨r, hr, rfl⟩
    have hwritten := reference_eq_ok_iff_isWritten.1 hr
    exact ⟨r, hwritten, hwritten.identity_eq⟩
  · rintro ⟨r, hr, rfl⟩
    exact ⟨r, reference_eq_ok_iff_isWritten.2 hr, hr.identity_eq⟩

/-- What may follow the keyword of a directive. -/
inductive Production : Directive → Text → Prop
  | turn {t : Text} {r : ModuleRef} (h : r.IsWritten t) :
    Production (turn ⟨r.name, r.slot.getD mainSlot⟩) t
  | add {t : Text} {r : ModuleRef} (h : r.IsWritten t) : Production (rule (.add r)) t
  | addExported {t : Text} {r : ModuleRef} (h : r.IsWritten t) :
    Production (rule (.addExported r)) t
  | makeOptional {t : Text} {r : ModuleRef} (h : r.IsWritten t) :
    Production (rule (.makeOptional ⟨r.name, r.slot.getD mainSlot⟩)) t
  | replace {a b : Text} {old new : ModuleRef} (ha : '>' ∉ a) (hb : '>' ∉ b)
    (hold : old.IsWritten a) (hnew : new.IsWritten b) :
    Production (rule (.replace ⟨old.name, old.slot.getD mainSlot⟩
      ⟨new.name, new.slot.getD mainSlot⟩)) (a ++ '>' :: b)
  | remove {t pattern : Text} (h : Holds t pattern) (hne : pattern ≠ []) :
    Production (rule (.remove ⟨pattern⟩)) t
  | force {a b version : Text} {selector : Selector} (ha : '=' ∉ a) (h : selector.IsWritten a)
    (hb : Holds b version) (hne : version ≠ []) :
    Production (rule (.force selector version)) (a ++ '=' :: b)

theorem hasBody_iff_production {d : Directive} {t : Text} : HasBody d t ↔ Production d t := by
  constructor
  · intro h
    cases h with
    | turn h =>
      obtain ⟨r, hr, rfl⟩ := moduleId_eq_ok_iff.1 h
      exact .turn hr
    | add h => exact .add (reference_eq_ok_iff_isWritten.1 h)
    | addExported h => exact .addExported (reference_eq_ok_iff_isWritten.1 h)
    | makeOptional h =>
      obtain ⟨r, hr, rfl⟩ := moduleId_eq_ok_iff.1 h
      exact .makeOptional hr
    | replace ha hb hold hnew =>
      obtain ⟨old, hold', rfl⟩ := moduleId_eq_ok_iff.1 hold
      obtain ⟨new, hnew', rfl⟩ := moduleId_eq_ok_iff.1 hnew
      exact .replace ha hb hold' hnew'
    | remove h hne => exact .remove (trim_eq_iff_holds.1 h) hne
    | force ha h hb hne =>
      exact .force ha (Selector.parse_eq_ok_iff_isWritten.1 h) (trim_eq_iff_holds.1 hb) hne
  · intro h
    cases h with
    | turn h => exact .turn (moduleId_eq_ok_iff.2 ⟨_, h, rfl⟩)
    | add h => exact .add (reference_eq_ok_iff_isWritten.2 h)
    | addExported h => exact .addExported (reference_eq_ok_iff_isWritten.2 h)
    | makeOptional h => exact .makeOptional (moduleId_eq_ok_iff.2 ⟨_, h, rfl⟩)
    | replace ha hb hold hnew =>
      exact .replace ha hb (moduleId_eq_ok_iff.2 ⟨_, hold, rfl⟩)
        (moduleId_eq_ok_iff.2 ⟨_, hnew, rfl⟩)
    | remove h hne => exact .remove (trim_eq_iff_holds.2 h) hne
    | force ha h hb hne =>
      exact .force ha (Selector.parse_eq_ok_iff_isWritten.2 h) (trim_eq_iff_holds.2 hb) hne

theorem parse_eq_unrecognized_iff {line : Text} :
    parse line = .error .unrecognized ↔ ∀ k : Keyword, ¬ k.text <+: line := by
  rw [← Keyword.ofLine?_eq_none_iff]
  unfold parse
  cases Keyword.ofLine? line with
  | none => simp
  | some found => simp [mapError_eq_error]

theorem parse_append (k : Keyword) (body : Text) :
    parse (k.text ++ body) = (ofBody body k).mapError (.malformed k) := by
  unfold parse
  rw [Keyword.ofLine?_eq_some_iff.2 rfl]

/-- A line that starts with a keyword is read or blamed on that keyword. -/
theorem parse_eq_malformed_iff {line : Text} {k : Keyword} :
    (∃ flaw, parse line = .error (.malformed k flaw)) ↔
      ∃ body, line = k.text ++ body ∧ ¬ ∃ d : Directive, d.keyword = k ∧ Production d body := by
  have hbody {body : Text} : (∃ flaw, ofBody body k = .error flaw) ↔
      ¬ ∃ d : Directive, d.keyword = k ∧ Production d body := by
    simp only [← hasBody_iff_production, ← ofBody_eq_ok_iff]
    cases ofBody body k <;> simp
  constructor
  · rintro ⟨flaw, h⟩
    unfold parse at h
    cases hline : Keyword.ofLine? line with
    | none =>
      rw [hline] at h
      cases h
    | some found =>
      obtain ⟨j, body⟩ := found
      rw [hline] at h
      obtain ⟨e, he, hj⟩ := mapError_eq_error.1 h
      cases hj
      exact ⟨body, Keyword.ofLine?_eq_some_iff.1 hline, hbody.1 ⟨flaw, he⟩⟩
  · rintro ⟨body, rfl, h⟩
    obtain ⟨flaw, hflaw⟩ := hbody.2 h
    exact ⟨flaw, by rw [parse_append, hflaw]; rfl⟩

/-- **A line is read exactly by the grammar.** It has no keyword, or it is what a production
allows after the keyword it starts with, or it is malformed under that keyword. -/
theorem parse_iff_production (line : Text) :
    (parse line = .error .unrecognized ↔ ∀ k : Keyword, ¬ k.text <+: line) ∧
      (∀ d, parse line = .ok d ↔ ∃ body, line = d.keyword.text ++ body ∧ Production d body) ∧
      ∀ k, (∃ flaw, parse line = .error (.malformed k flaw)) ↔
        ∃ body, line = k.text ++ body ∧ ¬ ∃ d : Directive, d.keyword = k ∧ Production d body := by
  refine ⟨parse_eq_unrecognized_iff, fun d => ?_, fun k => parse_eq_malformed_iff⟩
  rw [parse_eq_ok_iff]
  simp only [hasBody_iff_production]

example : parse "force-artifact-version: g :a: :\tc = 1=2 " =
    .ok (rule (.force ⟨"g", "a", none, some "c"⟩ "1=2")) := by decide

end Directive

end ModuleRules
