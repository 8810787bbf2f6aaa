import ModuleRules.Artifact.Reference
import ModuleRules.Proofs.Text.Segment

/-!
# Cells

A reference is a row of cells between colons. A cell holds a word between
blanks, or nothing at all. The words are what splitting at the colons and
trimming the pieces gives (`isRow_iff`), and blanks around the whole row do
not count (`map_trim_split_trim`).
-/

namespace ModuleRules.Text

def IsTrimmed (t : Text) : Prop :=
  (∀ c ∈ t.head?, isBlank c = false) ∧ ∀ c ∈ t.getLast?, isBlank c = false

/-- The text is `t` between blanks. -/
def Holds (p t : Text) : Prop :=
  IsTrimmed t ∧
    ∃ a b, p = a ++ t ++ b ∧ (∀ c ∈ a, isBlank c = true) ∧ ∀ c ∈ b, isBlank c = true

/-- What a text without a colon says; a blank one says nothing. -/
inductive IsCell : Option Text → Text → Prop
  | blank {p : Text} (hp : ':' ∉ p) (h : Holds p []) : IsCell none p
  | word {p t : Text} (hp : ':' ∉ p) (h : Holds p t) (hne : t ≠ []) : IsCell (some t) p

/-- What the texts between colons say. -/
inductive IsRow : List (Option Text) → Text → Prop
  | last {o : Option Text} {p : Text} (h : IsCell o p) : IsRow [o] p
  | cons {o : Option Text} {os : List (Option Text)} {p t : Text} (h : IsCell o p)
    (ht : IsRow os t) : IsRow (o :: os) (p ++ ':' :: t)

/-! ## Blanks -/

theorem trim_blank_append {a : Text} (ha : ∀ c ∈ a, isBlank c = true) (t : Text) :
    trim (a ++ t) = trim t := by
  unfold trim trimStart
  rw [List.dropWhile_append_of_pos ha]

theorem trim_append_blank {b : Text} (hb : ∀ c ∈ b, isBlank c = true) (t : Text) :
    trim (t ++ b) = trim t := by
  have hend (u : Text) : trimEnd (u ++ b) = trimEnd u := by
    simp only [trimEnd_eq_rdropWhile, List.rdropWhile, List.reverse_append]
    rw [List.dropWhile_append_of_pos (by simpa using hb)]
  unfold trim trimStart
  rw [List.dropWhile_append]
  split
  next h =>
    have hstart : t.dropWhile isBlank = [] := by simpa using h
    have hnil : b.dropWhile isBlank = [] := List.dropWhile_eq_nil_iff.2 hb
    rw [hstart, hnil]
  next => exact hend _

theorem trim_eq_iff_holds {p t : Text} : trim p = t ↔ Holds p t := by
  constructor
  · intro h
    subst h
    refine ⟨trim_eq_self_iff.1 (trim_trim p), p.takeWhile isBlank,
      (trimStart p).rtakeWhile isBlank, ?_, ?_, ?_⟩
    · rw [trim, trimEnd_eq_rdropWhile, List.append_assoc, List.rdropWhile_append_rtakeWhile,
        trimStart, List.takeWhile_append_dropWhile]
    · intro c hc
      exact List.mem_takeWhile_imp hc
    · intro c hc
      exact List.mem_rtakeWhile_imp hc
  · rintro ⟨ht, a, b, rfl, ha, hb⟩
    rw [trim_append_blank hb, trim_blank_append ha]
    exact trim_eq_self_iff.2 ht

theorem colon_not_mem_of_blank {a : Text} (ha : ∀ c ∈ a, isBlank c = true) : ':' ∉ a := by
  intro h
  have := ha _ h
  cases this

/-- Blanks in front of a row are blanks in front of its first cell. -/
theorem map_trim_split_blank_append {a : Text} (ha : ∀ c ∈ a, isBlank c = true) (t : Text) :
    (split ':' (a ++ t)).map trim = (split ':' t).map trim := by
  have hcolon := colon_not_mem_of_blank ha
  by_cases ht : ':' ∈ t
  · obtain ⟨p, r, rfl, hp⟩ := List.eq_append_cons_of_mem ht
    have hap : ':' ∉ a ++ p := by simp [hcolon, hp]
    rw [← List.append_assoc, split_append r hap, split_append r hp, List.map_cons, List.map_cons,
      trim_blank_append ha]
  · have hat : ':' ∉ a ++ t := by simp [hcolon, ht]
    simp [split_of_not_mem hat, split_of_not_mem ht, trim_blank_append ha]

/-- Blanks behind a row are blanks behind its last cell. -/
theorem map_trim_split_append_blank {b : Text} (hb : ∀ c ∈ b, isBlank c = true) :
    ∀ {ps : List Text}, (∀ p ∈ ps, ':' ∉ p) →
      (split ':' (join [':'] ps ++ b)).map trim = (split ':' (join [':'] ps)).map trim
  | [], _ => by
    simpa [join, split_of_not_mem (colon_not_mem_of_blank hb), split] using trim_append_blank hb []
  | [p], h => by
    have hp : ':' ∉ p := h p (by simp)
    have hpb : ':' ∉ p ++ b := by simp [hp, colon_not_mem_of_blank hb]
    simp [join, split_of_not_mem hp, split_of_not_mem hpb, trim_append_blank hb]
  | p :: q :: ps, h => by
    obtain ⟨hp, hps⟩ := List.forall_mem_cons.1 h
    have ih := map_trim_split_append_blank hb hps
    simp [join, split_append _ hp, ih]

theorem map_trim_split_trim (t : Text) :
    (split ':' (trim t)).map trim = (split ':' t).map trim := by
  obtain ⟨-, a, b, ht, ha, hb⟩ := trim_eq_iff_holds.1 (rfl : trim t = trim t)
  have hpieces : ∀ p ∈ split ':' (trim t), ':' ∉ p := fun p hp => not_mem_of_mem_split hp
  have hend := map_trim_split_append_blank hb hpieces
  rw [join_split] at hend
  conv_rhs => rw [ht, List.append_assoc, map_trim_split_blank_append ha, hend]

/-! ## Rows -/

def wordOf (p : Text) : Option Text := Segments.present? (trim p)

def words (t : Text) : List (Option Text) := (split ':' t).map wordOf

theorem present?_eq_some_iff {p q : Text} : Segments.present? p = some q ↔ p = q ∧ q ≠ [] := by
  unfold Segments.present?
  by_cases h : p = []
  · simp [h, eq_comm]
  · simp only [if_neg h, Option.some.injEq]
    constructor
    · rintro rfl
      exact ⟨rfl, h⟩
    · exact And.left

theorem map_present?_eq_cons_iff {ps : List Text} {q : Text} {os : List (Option Text)} :
    ps.map Segments.present? = some q :: os ↔
      ∃ qs, ps = q :: qs ∧ q ≠ [] ∧ qs.map Segments.present? = os := by
  cases ps with
  | nil => simp
  | cons p ps => simp [present?_eq_some_iff, and_assoc]

theorem words_eq (t : Text) : words t = ((split ':' (trim t)).map trim).map Segments.present? := by
  rw [map_trim_split_trim, List.map_map]
  rfl

theorem words_append (t u : Text) : words (t ++ ':' :: u) = words t ++ words u := by
  simp [words, split_append_sep]

theorem ne_nil_of_mem_words {t q : Text} (h : some q ∈ words t) : q ≠ [] := by
  obtain ⟨p, -, hp⟩ := List.mem_map.1 h
  exact (present?_eq_some_iff.1 hp).2

theorem isCell_iff {o : Option Text} {p : Text} : IsCell o p ↔ ':' ∉ p ∧ wordOf p = o := by
  unfold wordOf Segments.present?
  constructor
  · intro h
    cases h with
    | blank hp h =>
      rw [trim_eq_iff_holds.2 h]
      exact ⟨hp, rfl⟩
    | word hp h hne =>
      rw [trim_eq_iff_holds.2 h, if_neg hne]
      exact ⟨hp, rfl⟩
  · rintro ⟨hp, rfl⟩
    by_cases h : trim p = []
    · rw [if_pos h]
      exact .blank hp (trim_eq_iff_holds.1 h)
    · rw [if_neg h]
      exact .word hp (trim_eq_iff_holds.1 rfl) h

theorem isRow_join {ps : List Text} (hne : ps ≠ []) (h : ∀ p ∈ ps, ':' ∉ p) :
    IsRow (ps.map wordOf) (join [':'] ps) := by
  induction ps with
  | nil => exact absurd rfl hne
  | cons p ps ih =>
    obtain ⟨hp, hps⟩ := List.forall_mem_cons.1 h
    have hcell : IsCell (wordOf p) p := isCell_iff.2 ⟨hp, rfl⟩
    cases ps with
    | nil => exact .last hcell
    | cons q qs =>
      have hrow := IsRow.cons hcell (ih (by simp) hps)
      simpa [join] using hrow

theorem isRow_words (t : Text) : IsRow (words t) t := by
  have hne : split ':' t ≠ [] := split_ne_nil t
  have hrow := isRow_join hne fun p hp => not_mem_of_mem_split hp
  rwa [join_split] at hrow

theorem isRow_iff {os : List (Option Text)} {t : Text} : IsRow os t ↔ words t = os := by
  constructor
  · intro h
    unfold words
    induction h with
    | last h =>
      obtain ⟨hp, rfl⟩ := isCell_iff.1 h
      rw [split_of_not_mem hp]
      rfl
    | cons h _ ih =>
      obtain ⟨hp, rfl⟩ := isCell_iff.1 h
      rw [split_append _ hp, List.map_cons, ih]
  · rintro rfl
    exact isRow_words t

end ModuleRules.Text
