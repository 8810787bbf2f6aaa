import Mathlib.Data.List.DropRight
import ModuleRules.Text.Blank

/-!
# Segments

A segment is what a text between colons is read as: it has no colon, is not
empty and has no blank at either end. Joining segments by colons and splitting
the text again gives the segments back.
-/

namespace ModuleRules.Text

/-! ## Trimming -/

theorem trimEnd_eq_rdropWhile : ∀ t : Text, trimEnd t = t.rdropWhile isBlank
  | [] => rfl
  | c :: r => by
    have ih := trimEnd_eq_rdropWhile r
    unfold List.rdropWhile at *
    rw [trimEnd, ih, List.reverse_cons, List.dropWhile_append]
    cases h : r.reverse.dropWhile isBlank with
    | nil => cases hc : isBlank c <;> simp [hc]
    | cons d s =>
      cases hs : (d :: s).reverse with
      | nil => simp at hs
      | cons e u => simp [← hs]

theorem trimStart_eq_self_iff {t : Text} :
    trimStart t = t ↔ ∀ c ∈ t.head?, isBlank c = false := by
  unfold trimStart
  cases t with
  | nil => simp
  | cons c r => simp [List.dropWhile_eq_self_iff]

theorem trimEnd_eq_self_iff {t : Text} :
    trimEnd t = t ↔ ∀ c ∈ t.getLast?, isBlank c = false := by
  rw [trimEnd_eq_rdropWhile, List.rdropWhile_eq_self_iff]
  cases t with
  | nil => simp
  | cons c r => simp [List.getLast?_eq_getLast_of_ne_nil]

theorem trim_isPrefix (t : Text) : trim t <+: trimStart t := by
  unfold trim
  rw [trimEnd_eq_rdropWhile]
  exact List.rdropWhile_prefix ..

/-- A text is its own trimming when no blank stands at either end. -/
theorem trim_eq_self_iff {t : Text} : trim t = t ↔
    (∀ c ∈ t.head?, isBlank c = false) ∧ ∀ c ∈ t.getLast?, isBlank c = false := by
  rw [← trimStart_eq_self_iff, ← trimEnd_eq_self_iff]
  constructor
  · intro h
    have hsuffix : trimStart t <:+ t := List.dropWhile_suffix _
    have hstart : trimStart t = t := by
      refine hsuffix.eq_of_length_le ?_
      have := (trim_isPrefix t).length_le
      rwa [h] at this
    refine ⟨hstart, ?_⟩
    unfold trim at h
    rwa [hstart] at h
  · rintro ⟨hstart, hend⟩
    rw [trim, hstart, hend]

theorem trim_sublist (t : Text) : (trim t).Sublist t :=
  (trim_isPrefix t).sublist.trans (List.dropWhile_suffix _).sublist

theorem trim_trim (t : Text) : trim (trim t) = trim t := by
  have hstart : trimStart (trim t) = trim t := by
    have h : trimStart (trimStart t) = trimStart t := List.dropWhile_idempotent ..
    rw [trimStart_eq_self_iff] at h ⊢
    obtain ⟨s, hs⟩ := trim_isPrefix t
    intro c hc
    refine h c ?_
    rw [← hs, List.head?_append, Option.mem_def.1 hc]
    rfl
  have hend : trimEnd (trim t) = trim t := by
    unfold trim
    rw [trimEnd_eq_rdropWhile, trimEnd_eq_rdropWhile, List.rdropWhile_idempotent]
  rw [trim, hstart, hend]

/-! ## Splitting -/

theorem split_ne_nil {sep : Char} : ∀ t : Text, split sep t ≠ []
  | [] => by simp [split]
  | c :: r => by
    unfold split
    split
    next => simp
    next => split <;> simp

theorem split_of_not_mem {sep : Char} : ∀ {t : Text}, sep ∉ t → split sep t = [t]
  | [], _ => rfl
  | c :: r, h => by
    obtain ⟨hc, hr⟩ := List.ne_and_not_mem_of_not_mem_cons h
    rw [split, if_neg (Ne.symm hc), split_of_not_mem hr]

theorem split_append {sep : Char} (t : Text) :
    ∀ {p : Text}, sep ∉ p → split sep (p ++ sep :: t) = p :: split sep t
  | [], _ => if_pos rfl
  | c :: r, h => by
    obtain ⟨hc, hr⟩ := List.ne_and_not_mem_of_not_mem_cons h
    rw [List.cons_append, split, if_neg (Ne.symm hc), split_append t hr]

theorem split_append_sep (sep : Char) (a b : Text) :
    split sep (a ++ sep :: b) = split sep a ++ split sep b := by
  induction a with
  | nil => simp [split]
  | cons c r ih =>
    by_cases hc : c = sep
    · simp [split, hc, ih]
    · simp only [List.cons_append, split, hc, if_false, ih]
      cases h : split sep r with
      | nil => exact absurd h (split_ne_nil r)
      | cons p ps => simp

theorem split_join {sep : Char} {ps : List Text} (hne : ps ≠ []) (h : ∀ p ∈ ps, sep ∉ p) :
    split sep (join [sep] ps) = ps := by
  induction ps with
  | nil => exact absurd rfl hne
  | cons p ps ih =>
    obtain ⟨hp, hps⟩ := List.forall_mem_cons.1 h
    cases ps with
    | nil => exact split_of_not_mem hp
    | cons q qs =>
      rw [join, List.append_assoc, List.singleton_append, split_append _ hp, ih (by simp) hps]

theorem not_mem_of_mem_split {sep : Char} : ∀ {t p : Text}, p ∈ split sep t → sep ∉ p
  | [], p, h => by
    rw [List.mem_singleton.1 h]
    exact List.not_mem_nil
  | c :: r, p, h => by
    have ih : ∀ q ∈ split sep r, sep ∉ q := fun q => not_mem_of_mem_split
    unfold split at h
    split at h
    next =>
      rcases List.mem_cons.1 h with rfl | h
      · exact List.not_mem_nil
      · exact ih p h
    next hc =>
      split at h
      next =>
        rw [List.mem_singleton.1 h]
        simp [Ne.symm hc]
      next q qs hq =>
        rw [hq] at ih
        rcases List.mem_cons.1 h with rfl | h
        · exact List.not_mem_cons_of_ne_of_not_mem (Ne.symm hc) (ih q List.mem_cons_self)
        · exact ih p (List.mem_cons_of_mem q h)

theorem join_split (sep : Char) (t : Text) : join [sep] (split sep t) = t := by
  induction t with
  | nil => rfl
  | cons c r ih =>
    cases hr : split sep r with
    | nil => exact absurd hr (split_ne_nil r)
    | cons p ps =>
      rw [hr] at ih
      by_cases hc : c = sep
      · simp [split, hc, hr, join, ih]
      · cases ps with
        | nil => simpa [split, hc, hr, join] using ih
        | cons q qs => simpa [split, hc, hr, join] using ih

theorem mem_join_iff {sep c : Char} (hc : c ≠ sep) : ∀ {ps : List Text},
    c ∈ join [sep] ps ↔ ∃ p ∈ ps, c ∈ p
  | [] => by simp [join]
  | [p] => by simp [join]
  | p :: q :: ps => by
    have ih := @mem_join_iff sep c hc (q :: ps)
    simp [join, hc, ih]

theorem exists_mem_split_iff {sep c : Char} (hc : c ≠ sep) {t : Text} :
    (∃ p ∈ split sep t, c ∈ p) ↔ c ∈ t := by
  rw [← mem_join_iff hc, join_split]

theorem mem_of_mem_split {sep c : Char} {t p : Text} (hp : p ∈ split sep t) (hc : c ∈ p) :
    c ∈ t := by
  by_cases h : c = sep
  · exact absurd (h ▸ hc) (not_mem_of_mem_split hp)
  · exact (exists_mem_split_iff h).1 ⟨p, hp, hc⟩

theorem splitOnce_eq_some_iff {sep : Char} {t a b : Text} :
    splitOnce sep t = some (a, b) ↔ t = a ++ sep :: b ∧ sep ∉ a := by
  induction t generalizing a b with
  | nil => simp [splitOnce]
  | cons c r ih =>
    rw [splitOnce]
    by_cases hc : c = sep
    · cases a with
      | nil => simp [hc]
      | cons d a =>
        simp only [hc, if_true, List.cons_append]
        refine iff_of_false (by simp) ?_
        rintro ⟨h, hno⟩
        exact hno (List.head_eq_of_cons_eq h ▸ List.mem_cons_self)
    · rw [if_neg hc, Option.map_eq_some_iff]
      cases a with
      | nil => simp [hc]
      | cons d a =>
        simp only [Prod.exists, ih, Prod.mk.injEq, List.cons_append, List.cons_eq_cons,
          List.mem_cons, not_or]
        constructor
        · rintro ⟨a', b', ⟨hr, hno⟩, ⟨rfl, rfl⟩, rfl⟩
          exact ⟨⟨rfl, hr⟩, Ne.symm hc, hno⟩
        · rintro ⟨⟨rfl, hr⟩, -, hno⟩
          exact ⟨a, b, ⟨hr, hno⟩, ⟨rfl, rfl⟩, rfl⟩

/-! ## Segments -/

structure IsSegment (t : Text) : Prop where
  ne_nil : t ≠ []
  no_colon : ':' ∉ t
  trim_eq : trim t = t

instance (t : Text) : Decidable (IsSegment t) :=
  decidable_of_iff (t ≠ [] ∧ ':' ∉ t ∧ trim t = t)
    ⟨fun ⟨h, h', h''⟩ => ⟨h, h', h''⟩, fun ⟨h, h', h''⟩ => ⟨h, h', h''⟩⟩

/-- A piece between colons is a segment once it is trimmed, unless it is blank. -/
theorem isSegment_trim {t p : Text} (hp : p ∈ split ':' t) (hne : trim p ≠ []) :
    IsSegment (trim p) where
  ne_nil := hne
  no_colon h := not_mem_of_mem_split hp ((trim_sublist p).mem h)
  trim_eq := trim_trim p

/-- What starts and ends with segments has no blank at either end. -/
theorem trim_eq_self_of_segments {p m q : Text} (hp : IsSegment p) (hq : IsSegment q) :
    trim (p ++ m ++ q) = p ++ m ++ q := by
  obtain ⟨hhead, -⟩ := trim_eq_self_iff.1 hp.trim_eq
  obtain ⟨-, hlast⟩ := trim_eq_self_iff.1 hq.trim_eq
  rw [trim_eq_self_iff]
  constructor
  · obtain ⟨c, r, rfl⟩ := List.exists_cons_of_ne_nil hp.ne_nil
    exact hhead
  · rw [List.getLast?_append_of_ne_nil _ hq.ne_nil]
    exact hlast

end ModuleRules.Text
