import ModuleRules.Artifact.Coordinate
import ModuleRules.Proofs.Success
import ModuleRules.Proofs.Text.Affix
import ModuleRules.Proofs.Text.Segment

/-!
# Coordinates that read back

Reading the text of a coordinate gives that coordinate when it is stable: what
is between its colons are segments, and its text does not look like an
expression if it is none (`parse_text_iff`).
-/

namespace ModuleRules

open Text

/-! ## References -/

namespace Segments

/-- Each segment that is there is one as a text. -/
structure IsSound (s : Segments) : Prop where
  group : IsSegment s.group
  artifact : IsSegment s.artifact
  third : ∀ t ∈ s.third, IsSegment t
  fourth : ∀ t ∈ s.fourth, IsSegment t

theorem forall_present? {P : Text → Prop} {p : Text} (hp : p ≠ [] → P p) :
    ∀ t ∈ present? p, P t := by
  intro t ht
  unfold present? at ht
  split at ht
  next => cases ht
  next hne =>
    cases ht
    exact hp hne

/-- What holds of the pieces that are not blank holds of the segments. -/
theorem forall_of_parse {P : Text → Prop} {body whole : Text} {s : Segments}
    (hP : ∀ p ∈ split ':' body, trim p ≠ [] → P (trim p))
    (h : Segments.parse body whole = .ok s) :
    (P s.group ∧ P s.artifact) ∧ (∀ t ∈ s.third, P t) ∧ ∀ t ∈ s.fourth, P t := by
  have hps : ∀ p ∈ (split ':' body).map trim, p ≠ [] → P p := by
    intro p hp hne
    obtain ⟨q, hq, rfl⟩ := List.mem_map.1 hp
    exact hP q hq hne
  unfold Segments.parse at h
  split at h
  next => cases h
  next s' hs' =>
    split at h
    next => cases h
    next hne =>
      cases h
      obtain ⟨hg, ha⟩ := not_or.1 hne
      unfold ofPieces? at hs'
      split at hs'
      next g a heq =>
        cases hs'
        rw [heq] at hps
        exact ⟨⟨hps g (by simp) hg, hps a (by simp) ha⟩, by simp, by simp⟩
      next g a t heq =>
        cases hs'
        rw [heq] at hps
        exact ⟨⟨hps g (by simp) hg, hps a (by simp) ha⟩, forall_present? (hps t (by simp)), by simp⟩
      next g a t f heq =>
        cases hs'
        rw [heq] at hps
        exact ⟨⟨hps g (by simp) hg, hps a (by simp) ha⟩, forall_present? (hps t (by simp)),
          forall_present? (hps f (by simp))⟩
      next => cases hs'

theorem isSound_of_parse {body whole : Text} {s : Segments}
    (h : Segments.parse body whole = .ok s) : s.IsSound := by
  obtain ⟨⟨hg, ha⟩, ht, hf⟩ := forall_of_parse (fun p hp => isSegment_trim hp) h
  exact ⟨hg, ha, ht, hf⟩

/-- Reading brings in no character but the colon. -/
theorem not_mem_text_of_parse {c : Char} {body whole : Text} {s : Segments} (hc : c ≠ ':')
    (hbody : c ∉ body) (h : Segments.parse body whole = .ok s) : c ∉ s.text := by
  have hpiece : ∀ p ∈ split ':' body, trim p ≠ [] → c ∉ trim p := fun p hp _ hmem =>
    hbody (mem_of_mem_split hp ((trim_sublist p).mem hmem))
  obtain ⟨⟨hg, ha⟩, ht, hf⟩ := forall_of_parse (P := (c ∉ ·)) hpiece h
  obtain ⟨g, a, third, fourth⟩ := s
  cases third <;> cases fourth <;> simp_all [text]

theorem ofPieces?_text {s : Segments} (h : s.IsSound) :
    ofPieces? ((split ':' s.text).map trim) = some s := by
  obtain ⟨g, a, third, fourth⟩ := s
  obtain ⟨hg, ha, ht, hf⟩ := h
  have htail : ∀ r : Text, split ':' (g ++ ':' :: (a ++ ':' :: r)) = g :: a :: split ':' r := by
    intro r
    rw [split_append _ hg.no_colon, split_append _ ha.no_colon]
  have hblank : trim [] = [] := rfl
  cases third with
  | none =>
    cases fourth with
    | none =>
      simp [text, split_append, split_of_not_mem, ofPieces?, hg.no_colon, ha.no_colon, hg.trim_eq,
        ha.trim_eq]
    | some f =>
      have hf' := hf f rfl
      have hsplit : split ':' (':' :: f) = [[], f] := by
        simp [split, split_of_not_mem hf'.no_colon]
      simp [text, htail, hsplit, ofPieces?, present?, hblank, hg.trim_eq, ha.trim_eq, hf'.trim_eq,
        hf'.ne_nil]
  | some t =>
    have ht' := ht t rfl
    cases fourth with
    | none =>
      simp [text, htail, split_of_not_mem ht'.no_colon, ofPieces?, present?, hg.trim_eq,
        ha.trim_eq, ht'.trim_eq, ht'.ne_nil]
    | some f =>
      have hf' := hf f rfl
      simp [text, htail, split_append _ ht'.no_colon, split_of_not_mem hf'.no_colon, ofPieces?,
        present?, hg.trim_eq, ha.trim_eq, ht'.trim_eq, hf'.trim_eq, ht'.ne_nil, hf'.ne_nil]

theorem parse_text {s : Segments} (h : s.IsSound) (whole : Text) :
    Segments.parse s.text whole = .ok s := by
  unfold Segments.parse
  rw [ofPieces?_text h]
  exact if_neg (not_or.2 ⟨h.group.ne_nil, h.artifact.ne_nil⟩)

theorem trim_text {s : Segments} (h : s.IsSound) : trim s.text = s.text := by
  obtain ⟨g, a, third, fourth⟩ := s
  obtain ⟨hg, ha, ht, hf⟩ := h
  cases fourth with
  | some f =>
    cases third with
    | none =>
      simpa [text] using trim_eq_self_of_segments (m := ':' :: a ++ [':', ':']) hg (hf f rfl)
    | some t =>
      simpa [text] using trim_eq_self_of_segments (m := ':' :: a ++ ':' :: t ++ [':']) hg (hf f rfl)
  | none =>
    cases third with
    | none => simpa [text] using trim_eq_self_of_segments (m := [':']) hg ha
    | some t => simpa [text] using trim_eq_self_of_segments (m := ':' :: a ++ [':']) hg (ht t rfl)

end Segments

/-! ## Coordinates -/

theorem placeholder?_eq_some_iff {t name : Text} :
    placeholder? t = some name ↔ t = "$\x7b" ++ name ++ "\x7d" := by
  simp only [placeholder?, Option.bind_eq_some_iff, after?_eq_some_iff, beforeLast?_eq_some_iff]
  constructor
  · rintro ⟨_, rfl, rfl⟩
    exact (List.append_assoc _ _ _).symm
  · rintro rfl
    exact ⟨_, List.append_assoc _ _ _, rfl⟩

theorem placeholder?_enclosed (t : Text) : placeholder? ("$\x7b" ++ t ++ "\x7d") = some t :=
  placeholder?_eq_some_iff.2 rfl

theorem trim_enclosed (t : Text) :
    trim ("$\x7b" ++ t ++ "\x7d") = "$\x7b" ++ t ++ "\x7d" := by
  have hhead : (("$\x7b" : Text) ++ t ++ "\x7d").head? = some '$' := rfl
  have hlast : (("$\x7b" : Text) ++ t ++ "\x7d").getLast? = some '\x7d' := List.getLast?_concat
  rw [trim_eq_self_iff, hhead, hlast]
  constructor <;> rintro _ ⟨⟩ <;> rfl

namespace Coordinate

/-- The coordinate is what its text says. -/
structure IsStable (c : Coordinate) : Prop where
  segments : c.segments.IsSound
  plain : c.expression = false → placeholder? c.bareText = none

theorem ofSegments_eq_iff {s : Segments} {b : Bool} {c : Coordinate} :
    ofSegments s b = c ↔ s = c.segments ∧ b = c.expression := by
  cases s
  cases c
  simp [ofSegments, segments, and_assoc]

theorem isSound_of_parse {t : Text} {c : Coordinate} (h : Coordinate.parse t = .ok c) :
    c.segments.IsSound := by
  unfold Coordinate.parse at h
  split at h <;>
  · obtain ⟨s, hs, rfl⟩ := map_eq_ok.1 h
    exact Segments.isSound_of_parse hs

theorem parse_text_iff (c : Coordinate) : Coordinate.parse c.text = .ok c ↔ c.IsStable := by
  cases hc : c.expression with
  | true =>
    have htext : c.text = "$\x7b" ++ c.bareText ++ "\x7d" := by rw [text, hc]; rfl
    have hparse : Coordinate.parse c.text =
        (Segments.parse c.bareText c.text).map (ofSegments · true) := by
      unfold Coordinate.parse
      rw [htext, trim_enclosed, placeholder?_enclosed]
    constructor
    · intro h
      exact ⟨isSound_of_parse h, by simp [hc]⟩
    · intro h
      rw [hparse, map_eq_ok]
      exact ⟨c.segments, Segments.parse_text h.segments _, ofSegments_eq_iff.2 ⟨rfl, hc.symm⟩⟩
  | false =>
    have htext : c.text = c.bareText := by rw [text, hc]; rfl
    constructor
    · intro h
      have hsound := isSound_of_parse h
      refine ⟨hsound, fun _ => ?_⟩
      unfold Coordinate.parse at h
      rw [htext, show trim c.bareText = c.bareText from Segments.trim_text hsound] at h
      split at h
      next =>
        -- what is read as an expression is none in `c`
        obtain ⟨s, -, hs⟩ := map_eq_ok.1 h
        rw [← (ofSegments_eq_iff.1 hs).2] at hc
        cases hc
      next hnone => exact hnone
    · intro h
      unfold Coordinate.parse
      rw [htext, show trim c.bareText = c.bareText from Segments.trim_text h.segments, h.plain hc]
      have heq : ofSegments c.segments false = c := ofSegments_eq_iff.2 ⟨rfl, hc.symm⟩
      exact map_eq_ok.2 ⟨c.segments, Segments.parse_text h.segments _, heq⟩

end Coordinate

end ModuleRules
