import ModuleRules.Proofs.Text.Affix
import ModuleRules.Proofs.Text.Segment
import ModuleRules.Text.Line

/-!
# Whole lines and a rest

A text is whole lines, each with its line feed, and a rest without one
(`exists_unlines`). Its lines are those of the two parts, so what precedes a
line is a text of its own with the lines before it (`exists_lines_eq_take`).
-/

namespace ModuleRules.Text

theorem lines_append_cons {q : Text} (hq : '\n' ∉ q) (t : Text) :
    lines (q ++ '\n' :: t) = dropReturn q :: lines t := by
  unfold lines
  rw [split_append t hq]
  cases ht : split '\n' t with
  | nil => exact absurd ht (split_ne_nil t)
  | cons p ps => rfl

theorem lines_of_not_mem {t : Text} (h : '\n' ∉ t) : lines t = if t = [] then [] else [t] := by
  unfold lines
  rw [split_of_not_mem h, linesOfPieces]

theorem dropReturn_isPrefix (line : Text) : dropReturn line <+: line := by
  unfold dropReturn
  cases h : beforeLast? '\r' line with
  | none => exact List.prefix_refl _
  | some r => exact ⟨['\r'], (beforeLast?_eq_some_iff.1 h).symm⟩

theorem trim_concat_blank {c : Char} (hc : isBlank c = true) (t : Text) :
    trim (t ++ [c]) = trim t := by
  unfold trim trimStart
  rw [List.dropWhile_append, trimEnd_eq_rdropWhile, trimEnd_eq_rdropWhile]
  by_cases h : t.dropWhile isBlank = []
  · simp [h, hc]
  · have hne : (t.dropWhile isBlank).isEmpty = false := by simpa using h
    rw [hne, if_neg Bool.false_ne_true, List.rdropWhile_concat_pos _ _ _ hc]

theorem trim_dropReturn (t : Text) : trim (dropReturn t) = trim t := by
  unfold dropReturn
  cases h : beforeLast? '\r' t with
  | none => rfl
  | some r =>
    rw [beforeLast?_eq_some_iff.1 h, Option.getD_some]
    exact (trim_concat_blank (by decide) r).symm

theorem dropReturn_of_trim_eq {line : Text} (h : trim line = line) : dropReturn line = line := by
  unfold dropReturn
  cases hr : beforeLast? '\r' line with
  | none => rfl
  | some r =>
    -- a carriage return is a blank
    have hlast := (trim_eq_self_iff.1 h).2 '\r'
    rw [beforeLast?_eq_some_iff.1 hr] at hlast
    exact absurd (hlast List.getLast?_concat) (by decide)

theorem newline_not_mem_of_mem_lines {t line : Text} (h : line ∈ lines t) : '\n' ∉ line := by
  have hpieces : ∀ ps : List Text, (∀ p ∈ ps, '\n' ∉ p) → ∀ l ∈ linesOfPieces ps, '\n' ∉ l := by
    intro ps hps l hl
    induction ps with
    | nil => cases hl
    | cons p ps ih =>
      obtain ⟨hp, hps⟩ := List.forall_mem_cons.1 hps
      cases ps with
      | nil =>
        unfold linesOfPieces at hl
        split at hl
        · cases hl
        · rwa [List.mem_singleton.1 hl]
      | cons q qs =>
        rcases List.mem_cons.1 hl with rfl | hl
        · exact fun h => hp ((dropReturn_isPrefix p).mem h)
        · exact ih hps hl
  exact hpieces _ (fun p hp => not_mem_of_mem_split hp) line h

/-- Lines without blanks at their ends stay as they are. -/
theorem lines_join {ls : List Text} (hne : ∀ l ∈ ls, l ≠ []) (hnewline : ∀ l ∈ ls, '\n' ∉ l)
    (htrim : ∀ l ∈ ls, trim l = l) : lines (join ['\n'] ls) = ls := by
  have hpieces : linesOfPieces ls = ls := by
    clear hnewline
    induction ls with
    | nil => rfl
    | cons l ls ih =>
      obtain ⟨hl, hls⟩ := List.forall_mem_cons.1 hne
      obtain ⟨htl, htls⟩ := List.forall_mem_cons.1 htrim
      cases ls with
      | nil => exact if_neg hl
      | cons m ls => rw [linesOfPieces, dropReturn_of_trim_eq htl, ih hls htls]
  by_cases hls : ls = []
  · rw [hls]
    rfl
  · rw [lines, split_join hls hnewline, hpieces]

/-! ## Whole lines -/

theorem unlines_eq_nil_or_getLast? : ∀ qs : List Text,
    unlines qs = [] ∨ (unlines qs).getLast? = some '\n'
  | [] => .inl rfl
  | q :: qs => by
    right
    rw [unlines]
    rcases unlines_eq_nil_or_getLast? qs with h | h
    · rw [h]
      exact List.getLast?_concat
    · simp [List.getLast?_append, List.getLast?_cons, h]

theorem unlines_append : ∀ qs rs : List Text, unlines (qs ++ rs) = unlines qs ++ unlines rs
  | [], _ => rfl
  | q :: qs, rs => by
    rw [List.cons_append, unlines, unlines, unlines_append qs rs, List.append_assoc,
      List.cons_append]

theorem lines_unlines_append : ∀ {qs : List Text}, (∀ q ∈ qs, '\n' ∉ q) → ∀ t : Text,
    lines (unlines qs ++ t) = qs.map dropReturn ++ lines t
  | [], _, t => rfl
  | q :: qs, h, t => by
    obtain ⟨hq, hqs⟩ := List.forall_mem_cons.1 h
    rw [unlines, List.append_assoc, List.cons_append, lines_append_cons hq,
      lines_unlines_append hqs t, List.map_cons, List.cons_append]

theorem lines_unlines {qs : List Text} (h : ∀ q ∈ qs, '\n' ∉ q) :
    lines (unlines qs) = qs.map dropReturn := by
  have hlines := lines_unlines_append h []
  rw [List.append_nil] at hlines
  exact hlines.trans (List.append_nil _)

theorem exists_unlines : ∀ t : Text, ∃ qs r,
    (∀ q ∈ qs, '\n' ∉ q) ∧ '\n' ∉ r ∧ t = unlines qs ++ r
  | [] => ⟨[], [], by simp, by simp, rfl⟩
  | c :: t => by
    obtain ⟨qs, r, hqs, hr, rfl⟩ := exists_unlines t
    by_cases hc : c = '\n'
    · exact ⟨[] :: qs, r, by simpa using hqs, hr, by rw [hc]; rfl⟩
    · cases qs with
      | nil => exact ⟨[], c :: r, by simp, by simp [Ne.symm hc, hr], rfl⟩
      | cons q qs =>
        obtain ⟨hq, hqs⟩ := List.forall_mem_cons.1 hqs
        refine ⟨(c :: q) :: qs, r, ?_, hr, rfl⟩
        exact List.forall_mem_cons.2 ⟨by simp [Ne.symm hc, hq], hqs⟩

/-- A line feed cuts the lines. -/
theorem lines_append_feed (a b : Text) :
    lines (a ++ '\n' :: b) = lines (a ++ ['\n']) ++ lines b := by
  obtain ⟨qs, r, hqs, hr, rfl⟩ := exists_unlines a
  have hcut (t : Text) : lines (unlines qs ++ r ++ '\n' :: t) =
      qs.map dropReturn ++ dropReturn r :: lines t := by
    rw [List.append_assoc, lines_unlines_append hqs, lines_append_cons hr]
  rw [hcut b, hcut [], List.append_assoc]
  rfl

/-- A line feed at the end ends the last line, or makes a blank one. -/
theorem trim_lines_concat_feed (a : Text) : ∃ blank, (blank = [] ∨ blank = [[]]) ∧
    (lines (a ++ ['\n'])).map trim = (lines a).map trim ++ blank := by
  obtain ⟨qs, r, hqs, hr, rfl⟩ := exists_unlines a
  rw [List.append_assoc, lines_unlines_append hqs, lines_unlines_append hqs, lines_append_cons hr,
    lines_of_not_mem hr]
  by_cases h : r = []
  · refine ⟨[[]], .inr rfl, ?_⟩
    rw [if_pos h, List.append_nil, List.map_append, h]
    rfl
  · refine ⟨[], .inl rfl, ?_⟩
    rw [if_neg h, List.append_nil, List.map_append, List.map_append, List.map_cons,
      trim_dropReturn]
    rfl

/-- The lines before one that is there are the lines of what precedes it. -/
theorem exists_lines_eq_take {t : Text} {n : Nat} (h : n < (lines t).length) :
    ∃ before, before <+: t ∧ lines before = (lines t).take n := by
  obtain ⟨qs, r, hqs, hr, rfl⟩ := exists_unlines t
  have hlines := lines_unlines_append hqs r
  have hn : n ≤ qs.length := by
    have hrest : (lines r).length ≤ 1 := by
      rw [lines_of_not_mem hr]
      split <;> simp
    rw [hlines, List.length_append, List.length_map] at h
    omega
  refine ⟨unlines (qs.take n), ?_, ?_⟩
  · refine ⟨unlines (qs.drop n) ++ r, ?_⟩
    rw [← List.append_assoc, ← unlines_append, List.take_append_drop]
  · have hwhole : ∀ q ∈ qs.take n, '\n' ∉ q := fun q hq => hqs q (List.mem_of_mem_take hq)
    rw [lines_unlines hwhole, hlines, List.take_append_of_le_length (by simpa using hn),
      List.map_take]

end ModuleRules.Text
