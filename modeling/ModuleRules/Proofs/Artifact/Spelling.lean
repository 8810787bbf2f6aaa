import ModuleRules.Proofs.Artifact.Coordinate

/-!
# Spellings of coordinates

Which coordinates read back from their text, said of their parts
(`parse_text_eq_ok_iff`), and which spellings of a coordinate do once they are
written out. Reading drops blanks and empty segments and nothing else. So what
is written looks like an expression where the spelling did, except that it may
have hidden its last brace behind colons (`isMasked_iff`).
-/

namespace ModuleRules

open Text

theorem placeholder?_isSome_iff {t : Text} :
    (placeholder? t).isSome = true ↔ ("$\x7b" : Text) <+: t ∧ ("\x7d" : Text) <:+ t := by
  rw [Option.isSome_iff_exists]
  simp only [placeholder?_eq_some_iff]
  constructor
  · rintro ⟨name, rfl⟩
    exact ⟨⟨name ++ "\x7d", (List.append_assoc _ _ _).symm⟩, ⟨_, rfl⟩⟩
  · rintro ⟨⟨r, rfl⟩, s, hs⟩
    have hlast : (("$\x7b" : Text) ++ r).getLast? = some '\x7d' := by
      rw [← hs]
      exact List.getLast?_concat
    rcases List.eq_nil_or_concat' r with rfl | ⟨name, d, rfl⟩
    · cases hlast
    · rw [← List.append_assoc, List.getLast?_concat] at hlast
      cases hlast
      exact ⟨name, (List.append_assoc _ _ _).symm⟩

namespace Coordinate

def parts (c : Coordinate) : List Text :=
  c.group :: c.artifact :: (c.version.toList ++ c.classifier.toList)

theorem isSound_iff {c : Coordinate} : c.segments.IsSound ↔ ∀ p ∈ c.parts, IsSegment p := by
  simp only [parts, List.forall_mem_cons, List.forall_mem_append, Option.mem_toList]
  exact ⟨fun h => ⟨h.group, h.artifact, h.third, h.fourth⟩,
    fun ⟨hg, ha, ht, hf⟩ => ⟨hg, ha, ht, hf⟩⟩

/-- The text looks like an expression, and the coordinate is none. -/
theorem plain_iff {c : Coordinate} : (c.expression = false → placeholder? c.bareText = none) ↔
    ¬ (c.expression = false ∧ ("$\x7b" : Text) <+: c.text ∧ ("\x7d" : Text) <:+ c.text) := by
  rw [← placeholder?_isSome_iff, not_and]
  refine imp_congr_right fun h => ?_
  have htext : c.text = c.bareText := by rw [text, h]; rfl
  rw [htext, Option.not_isSome_iff_eq_none]

/-- **A coordinate reads back** if and only if each of its segments is there, without a colon and
without a blank at either end, and its text does not look like an expression when it is none. -/
theorem parse_text_eq_ok_iff (c : Coordinate) : Coordinate.parse c.text = .ok c ↔
    (∀ p ∈ c.parts, p ≠ [] ∧ ':' ∉ p ∧
      (∀ a ∈ p.head?, isBlank a = false) ∧ ∀ a ∈ p.getLast?, isBlank a = false) ∧
      ¬ (c.expression = false ∧ ("$\x7b" : Text) <+: c.text ∧ ("\x7d" : Text) <:+ c.text) := by
  have hsegment (p : Text) : IsSegment p ↔ p ≠ [] ∧ ':' ∉ p ∧
      (∀ a ∈ p.head?, isBlank a = false) ∧ ∀ a ∈ p.getLast?, isBlank a = false := by
    rw [← trim_eq_self_iff]
    exact ⟨fun h => ⟨h.ne_nil, h.no_colon, h.trim_eq⟩, fun h => ⟨h.1, h.2.1, h.2.2⟩⟩
  simp only [← hsegment, ← isSound_iff, ← plain_iff]
  rw [parse_text_iff]
  exact ⟨fun h => ⟨h.segments, h.plain⟩, fun h => ⟨h.1, h.2⟩⟩

end Coordinate

/-! ## What reading drops -/

namespace Text

/-- A character that no reading of segments drops. -/
def isKept (a : Char) : Bool := !isBlank a && a != ':'

theorem filter_dropWhile {p q : Char → Bool} (h : ∀ a, q a = true → p a = false) :
    ∀ t : Text, (t.dropWhile q).filter p = t.filter p
  | [] => rfl
  | a :: t => by
    cases ha : q a with
    | false => rw [List.dropWhile_cons_of_neg (by simp [ha])]
    | true =>
      rw [List.dropWhile_cons_of_pos ha, filter_dropWhile h t,
        List.filter_cons_of_neg (by simp [h a ha])]

theorem filter_trim (t : Text) : (trim t).filter isKept = t.filter isKept := by
  have hdrop := filter_dropWhile (p := isKept) (q := isBlank) (by simp_all [isKept])
  rw [trim, trimEnd_eq_rdropWhile, List.rdropWhile, List.filter_reverse, hdrop,
    ← List.filter_reverse, List.reverse_reverse, trimStart, hdrop]

theorem filter_join {p : Char → Bool} {sep : Char} (h : p sep = false) : ∀ ps : List Text,
    (join [sep] ps).filter p = ps.flatMap (·.filter p)
  | [] => rfl
  | [t] => by simp [join]
  | t :: u :: ps => by
    have ih := filter_join h (u :: ps)
    simp [join, h, ih]

theorem filter_split (t : Text) : (split ':' t).flatMap (·.filter isKept) = t.filter isKept := by
  have hjoin := filter_join (show isKept ':' = false from rfl) (split ':' t)
  rw [← hjoin, join_split]

theorem getLast?_filter {p : Char → Bool} {t : Text} {a : Char} (ht : t.getLast? = some a)
    (ha : p a = true) : (t.filter p).getLast? = some a := by
  obtain ⟨s, rfl⟩ := List.getLast?_eq_some_iff.1 ht
  simp [ha]

theorem getLast?_trim {t : Text} {a : Char} (h : (t.filter isKept).getLast? = some a) :
    (trim t).getLast? = some a ∨ (trim t).getLast? = some ':' := by
  have hkept := filter_trim t
  cases hlast : (trim t).getLast? with
  | none =>
    rw [List.getLast?_eq_none_iff.1 hlast] at hkept
    rw [← hkept] at h
    cases h
  | some d =>
    have hblank : isBlank d = false := (trim_eq_self_iff.1 (trim_trim t)).2 d hlast
    by_cases hcolon : d = ':'
    · exact .inr (by rw [hcolon])
    · have hd := getLast?_filter hlast (p := isKept) (by simp [isKept, hblank, hcolon])
      rw [hkept, h] at hd
      exact .inl hd.symm

theorem IsSegment.isKept_last {p : Text} (h : IsSegment p) :
    ∃ a, p.getLast? = some a ∧ isKept a = true := by
  obtain ⟨s, a, rfl⟩ := List.eq_nil_or_concat' p |>.resolve_left h.ne_nil
  have hlast := (trim_eq_self_iff.1 h.trim_eq).2 a List.getLast?_concat
  have hcolon : a ≠ ':' := fun ha => h.no_colon (by simp [ha])
  exact ⟨a, List.getLast?_concat, by simp [isKept, hlast, hcolon]⟩

end Text

namespace Segments

theorem ofPieces?_eq_some {ps : List Text} {s : Segments} (h : ofPieces? ps = some s) :
    (∃ qs, ps = s.group :: s.artifact :: qs) ∧
      s.text.filter isKept = ps.flatMap (·.filter isKept) := by
  have hcolon : isKept ':' = false := rfl
  have hpresent (p : Text) : present? p = none ∧ p = [] ∨ present? p = some p := by
    unfold present?
    split <;> simp_all
  unfold ofPieces? at h
  split at h
  next => cases h; simp [text, hcolon]
  next t => cases h; rcases hpresent t with ⟨ht, rfl⟩ | ht <;> simp [text, ht, hcolon]
  next t f =>
    cases h
    rcases hpresent t with ⟨ht, rfl⟩ | ht <;> rcases hpresent f with ⟨hf, rfl⟩ | hf <;>
      simp [text, ht, hf, hcolon]
  next => cases h

/-- The mark of an expression does not reach beyond the group. -/
theorem mark_isPrefix_append_iff {g x : Text} (hg : g ≠ []) (hx : x.head? ≠ some '\x7b') :
    ("$\x7b" : Text) <+: g ++ x ↔ ("$\x7b" : Text) <+: g := by
  obtain ⟨a, g, rfl⟩ := List.exists_cons_of_ne_nil hg
  cases g with
  | cons b g => simp [List.cons_prefix_cons]
  | nil =>
    cases x with
    | nil => rfl
    | cons b x =>
      have hb : '\x7b' ≠ b := fun hb => hx (by rw [hb]; rfl)
      simp [List.cons_prefix_cons, hb]

theorem exists_append_of_split {body p q : Text} {ps : List Text}
    (h : split ':' body = p :: q :: ps) (hne : trim p ≠ []) (hbody : trim body = body) :
    ∃ x, body = trim p ++ x ∧ x.head? ≠ some '\x7b' := by
  have hjoin := join_split ':' body
  rw [h, join, List.append_assoc] at hjoin
  have hstart : trimStart p = p := by
    cases p with
    | nil => exact absurd rfl hne
    | cons a r =>
      rw [← hjoin] at hbody
      exact trimStart_eq_self_iff.2 (trim_eq_self_iff.1 hbody).1
  have hp : trim p ++ p.rtakeWhile isBlank = p := by
    rw [trim, hstart, trimEnd_eq_rdropWhile, List.rdropWhile_append_rtakeWhile]
  -- a blank or a colon follows, and no brace
  refine ⟨p.rtakeWhile isBlank ++ ([':'] ++ join [':'] (q :: ps)), ?_, ?_⟩
  · rw [← List.append_assoc, hp, hjoin]
  · cases hblanks : p.rtakeWhile isBlank with
    | nil => simp
    | cons a r =>
      have ha : isBlank a = true := List.mem_rtakeWhile_imp (hblanks ▸ List.mem_cons_self)
      rintro ⟨⟩
      cases ha

theorem pieces_of_parse {body whole : Text} {s : Segments}
    (h : Segments.parse body whole = .ok s) :
    (∃ p q ps, split ':' body = p :: q :: ps ∧ trim p = s.group) ∧
      s.text.filter isKept = body.filter isKept := by
  unfold Segments.parse at h
  split at h
  next => cases h
  next s' hs' =>
    split at h
    next => cases h
    next =>
      cases h
      obtain ⟨⟨qs, hqs⟩, hkept⟩ := ofPieces?_eq_some hs'
      obtain ⟨p, rest, hsplit, hp, hrest⟩ := List.map_eq_cons_iff.1 hqs
      obtain ⟨q, ps, rfl, -, -⟩ := List.map_eq_cons_iff.1 hrest
      refine ⟨⟨p, q, ps, hsplit, hp⟩, ?_⟩
      rw [hkept, List.flatMap_map]
      simp only [filter_trim, filter_split]

theorem isKept_last_text {s : Segments} (h : s.IsSound) :
    ∃ a, s.text.getLast? = some a ∧ isKept a = true := by
  -- what is written last is a segment
  obtain ⟨m, q, htext, hq⟩ : ∃ m q, s.text = m ++ q ∧ IsSegment q := by
    obtain ⟨g, a, third, fourth⟩ := s
    cases fourth with
    | some f =>
      cases third with
      | none => exact ⟨g ++ ':' :: a ++ [':', ':'], f, by simp [text], h.fourth f rfl⟩
      | some t => exact ⟨g ++ ':' :: a ++ ':' :: t ++ [':'], f, by simp [text], h.fourth f rfl⟩
    | none =>
      cases third with
      | none => exact ⟨g ++ [':'], a, by simp [text], h.artifact⟩
      | some t => exact ⟨g ++ ':' :: a ++ [':'], t, by simp [text], h.third t rfl⟩
  rw [htext, List.getLast?_append_of_ne_nil _ hq.ne_nil]
  exact hq.isKept_last

theorem mark_isPrefix_text_iff {body whole : Text} {s : Segments}
    (h : Segments.parse body whole = .ok s) (hbody : trim body = body) :
    ("$\x7b" : Text) <+: s.text ↔ ("$\x7b" : Text) <+: body := by
  have hgroup := (isSound_of_parse h).group.ne_nil
  obtain ⟨⟨p, q, ps, hsplit, hp⟩, -⟩ := pieces_of_parse h
  obtain ⟨x, hx, hhead⟩ := exists_append_of_split hsplit (hp ▸ hgroup) hbody
  have htext : s.text = s.group ++ ':' :: (s.artifact ++ _) := List.append_assoc _ _ _
  rw [hx, hp, mark_isPrefix_append_iff hgroup hhead, htext,
    mark_isPrefix_append_iff hgroup (by simp)]

theorem getLast?_text_of_parse {body whole : Text} {s : Segments}
    (h : Segments.parse body whole = .ok s) :
    s.text.getLast? = (body.filter isKept).getLast? := by
  obtain ⟨a, ha, hlast⟩ := isKept_last_text (isSound_of_parse h)
  rw [← (pieces_of_parse h).2, ha, getLast?_filter ha hlast]

end Segments

namespace Coordinate

/-- What looks like an expression but for the colons behind it, as `${g:a}:` does. -/
def IsMasked (t : Text) : Prop :=
  ("$\x7b" : Text) <+: trim t ∧ (trim t).getLast? = some ':' ∧
    (t.filter isKept).getLast? = some '\x7d'

instance (t : Text) : Decidable (IsMasked t) :=
  inferInstanceAs (Decidable (_ ∧ _ ∧ _))

theorem isMasked_iff {t : Text} {c : Coordinate} (h : Coordinate.parse t = .ok c) :
    (c.expression = false ∧ ("$\x7b" : Text) <+: c.text ∧ ("\x7d" : Text) <:+ c.text) ↔
      IsMasked t := by
  have hbrace {u : Text} : ("\x7d" : Text) <:+ u ↔ u.getLast? = some '\x7d' := by
    rw [List.getLast?_eq_some_iff]
    exact ⟨fun ⟨r, hr⟩ => ⟨r, hr.symm⟩, fun ⟨r, hr⟩ => ⟨r, hr.symm⟩⟩
  unfold Coordinate.parse at h
  split at h
  next body hbody =>
    -- an expression ends with its brace
    obtain ⟨s, -, rfl⟩ := map_eq_ok.1 h
    refine iff_of_false (by simp [ofSegments]) ?_
    rintro ⟨-, hcolon, -⟩
    rw [placeholder?_eq_some_iff.1 hbody, List.getLast?_append_of_ne_nil _ (by decide)] at hcolon
    cases hcolon
  next hnone =>
    obtain ⟨s, hs, rfl⟩ := map_eq_ok.1 h
    have hstart := Segments.mark_isPrefix_text_iff hs (trim_trim t)
    have hend := Segments.getLast?_text_of_parse hs
    have hexpression : ¬ (("$\x7b" : Text) <+: trim t ∧ ("\x7d" : Text) <:+ trim t) := by
      rw [← placeholder?_isSome_iff, hnone]
      simp
    have htext : (ofSegments s false).text = s.text := rfl
    rw [htext, hstart, hbrace, hend, filter_trim, IsMasked]
    constructor
    · rintro ⟨-, hstarts, hlast⟩
      refine ⟨hstarts, (getLast?_trim hlast).resolve_left fun hsuffix => ?_, hlast⟩
      exact hexpression ⟨hstarts, hbrace.2 hsuffix⟩
    · rintro ⟨hstarts, -, hlast⟩
      exact ⟨rfl, hstarts, hlast⟩

/-- What was read is read again from its text unless it was masked. -/
theorem parse_text_iff_of_parse {t : Text} {c : Coordinate} (h : Coordinate.parse t = .ok c) :
    Coordinate.parse c.text = .ok c ↔ ¬ IsMasked t := by
  rw [parse_text_iff, ← isMasked_iff h, ← plain_iff]
  exact ⟨IsStable.plain, fun hplain => ⟨isSound_of_parse h, hplain⟩⟩

end Coordinate

end ModuleRules
