import Mathlib.Data.List.Infix
import ModuleRules.Proofs.Text.Affix

/-!
# Where marks begin

A text is clear of a mark if the mark begins nowhere in it, whatever follows
the text. This is more than that the mark does not occur, since a mark can
begin at the end of one text and go on in the next; and unlike that it holds
of two texts together if it holds of each (`IsClear.append`).

A mark that has `<` as its first character only cannot go on into what starts
with `<`, and one that ends in `>` cannot leave a text in which every `<` has
a `>` behind it.
-/

namespace ModuleRules.Text

variable {mark m s t u rest : Text} {c : Char}

theorem after?_eq_none_iff : after? mark t = none ↔ ¬ mark <+: t := by
  rw [Option.eq_none_iff_forall_ne_some]
  constructor
  · rintro h ⟨r, rfl⟩
    exact h r (after?_eq_some_iff.2 rfl)
  · rintro h r hr
    exact h ⟨r, (after?_eq_some_iff.1 hr).symm⟩

/-! ## Clear texts -/

def IsClear (mark t : Text) : Prop := ∀ u, u <:+ t → u ≠ [] → ∀ rest, ¬ mark <+: u ++ rest

theorem isClear_nil (mark : Text) : IsClear mark [] := by
  intro u hu hne
  exact absurd (List.suffix_nil.1 hu) hne

theorem isClear_cons : IsClear mark (c :: t) ↔ (∀ rest, ¬ mark <+: c :: t ++ rest) ∧ IsClear mark t := by
  constructor
  · intro h
    refine ⟨h _ (List.suffix_refl _) (by simp), fun u hu => ?_⟩
    exact h u (hu.trans (List.suffix_cons c t))
  · rintro ⟨hc, ht⟩ u hu hne
    rcases List.suffix_cons_iff.1 hu with rfl | hu
    · exact hc
    · exact ht u hu hne

theorem IsClear.append (hs : IsClear mark s) (ht : IsClear mark t) : IsClear mark (s ++ t) := by
  induction s with
  | nil => exact ht
  | cons c s ih =>
    obtain ⟨hc, hs⟩ := isClear_cons.1 hs
    rw [List.cons_append, isClear_cons]
    refine ⟨fun rest => ?_, ih hs⟩
    have h := hc (t ++ rest)
    rwa [← List.append_assoc] at h

theorem isClear_of_not_mem (h : c ∉ t) : IsClear (c :: m) t := by
  intro u hu hne rest
  obtain ⟨d, v, rfl⟩ := List.exists_cons_of_ne_nil hne
  rintro ⟨r, hr⟩
  obtain rfl : c = d := List.head_eq_of_cons_eq hr
  exact h (hu.mem List.mem_cons_self)

theorem isClear_cons_of_not_mem (h : c ∉ t) (hm : ∀ rest, ¬ m <+: t ++ rest) :
    IsClear (c :: m) (c :: t) := by
  rw [isClear_cons]
  refine ⟨fun rest hrest => hm rest ?_, isClear_of_not_mem h⟩
  exact (List.cons_prefix_cons.1 hrest).2

/-- A mark does not go on behind a character that it has at its start only. -/
theorem prefix_of_prefix_append (hm : c ∉ m) (hu : u ≠ []) (h : c :: m <+: u ++ c :: t) :
    c :: m <+: u := by
  rcases List.prefix_or_prefix_of_prefix h (List.prefix_append u (c :: t)) with hle | hle
  · exact hle
  · obtain ⟨v, hv⟩ := hle
    cases v with
    | nil => exact ⟨[], by rw [← hv, List.append_nil, List.append_nil]⟩
    | cons d v =>
      obtain ⟨b, w, rfl⟩ := List.exists_cons_of_ne_nil hu
      rw [← hv, List.prefix_append_right_inj] at h
      obtain rfl := (List.cons_prefix_cons.1 h).1
      obtain ⟨-, rfl⟩ := List.cons_eq_cons.1 hv
      exact absurd (List.mem_append_right w List.mem_cons_self) hm

theorem isClear_append_cons (hm : c ∉ m) (hs : ¬ c :: m <:+: s) (ht : IsClear (c :: m) (c :: t)) :
    IsClear (c :: m) (s ++ c :: t) := by
  induction s with
  | nil => exact ht
  | cons d s ih =>
    rw [List.cons_append, isClear_cons]
    refine ⟨fun rest h => hs ?_, ih fun h => hs (h.trans (List.infix_cons List.infix_rfl))⟩
    rw [← List.cons_append, List.append_assoc] at h
    exact (prefix_of_prefix_append hm (by simp) h).isInfix

/-! ## Texts without a loose end -/

/-- Behind every `<` there is a `>`. -/
def IsWhole (t : Text) : Prop := ∀ u, u <:+ t → u.head? = some '<' → '>' ∈ u

theorem IsWhole.of_suffix (h : IsWhole t) (hu : u <:+ t) : IsWhole u :=
  fun v hv => h v (hv.trans hu)

/-- A mark that starts in a whole text ends there. -/
theorem IsWhole.prefix_of_prefix_append (h : IsWhole t) (ht : t ≠ []) (hm : '>' ∉ m.dropLast)
    (hpre : '<' :: m <+: t ++ rest) : '<' :: m <+: t := by
  rcases List.prefix_or_prefix_of_prefix hpre (List.prefix_append t rest) with hle | hle
  · exact hle
  · obtain ⟨v, hv⟩ := hle
    obtain ⟨b, w, rfl⟩ := List.exists_cons_of_ne_nil ht
    obtain ⟨rfl, rfl⟩ : b = '<' ∧ w ++ v = m := by simpa using hv
    cases v using List.reverseRecOn with
    | nil => simp
    | append_singleton v d =>
      rw [← List.append_assoc, List.dropLast_concat] at hm
      have hin := h _ (List.suffix_refl _) rfl
      simp_all

/-! ## Cutting -/

theorem IsClear.cut?_append (h : IsClear mark t) (rest : Text) :
    cut? mark (t ++ rest) = (cut? mark rest).map fun x => (t ++ x.1, x.2) := by
  induction t with
  | nil => simp
  | cons c t ih =>
    obtain ⟨hc, ht⟩ := isClear_cons.1 h
    have hafter : after? mark (c :: (t ++ rest)) = none := after?_eq_none_iff.2 (hc rest)
    rw [List.cons_append, cut?, hafter]
    simp [ih ht, Function.comp_def]

theorem cut?_mark (hm : mark ≠ []) (rest : Text) : cut? mark (mark ++ rest) = some ([], rest) := by
  obtain ⟨c, m, rfl⟩ := List.exists_cons_of_ne_nil hm
  have hafter : after? (c :: m) (c :: (m ++ rest)) = some rest := after?_eq_some_iff.2 rfl
  rw [List.cons_append, cut?, hafter]

theorem IsClear.cut? (h : IsClear mark t) (hm : mark ≠ []) (rest : Text) :
    Text.cut? mark (t ++ (mark ++ rest)) = some (t, rest) := by
  rw [h.cut?_append, cut?_mark hm]
  simp

theorem eq_append_of_cut? : ∀ {t : Text} {a b : Text}, cut? mark t = some (a, b) →
    t = a ++ (mark ++ b)
  | [], a, b, h => by
    unfold Text.cut? at h
    split at h
    next hm =>
      cases h
      simp [hm]
    next => cases h
  | c :: t, a, b, h => by
    rw [Text.cut?] at h
    split at h
    next rest hafter =>
      cases h
      rw [after?_eq_some_iff.1 hafter, List.nil_append]
    next =>
      obtain ⟨⟨a', b'⟩, hcut, h⟩ := Option.map_eq_some_iff.1 h
      cases h
      rw [List.cons_append, ← eq_append_of_cut? hcut]

/-- What was found is found with more behind it. -/
theorem cut?_append_of_eq_some (hm : mark ≠ []) (rest : Text) : ∀ {t a b : Text},
    cut? mark t = some (a, b) → cut? mark (t ++ rest) = some (a, b ++ rest)
  | [], a, b, h => by simp [cut?, hm] at h
  | c :: t, a, b, h => by
    rw [cut?] at h
    rw [List.cons_append, cut?]
    cases hafter : after? mark (c :: t) with
    | some r =>
      rw [hafter] at h
      cases h
      have hlong : after? mark (c :: (t ++ rest)) = some (b ++ rest) := by
        rw [after?_eq_some_iff, ← List.cons_append, after?_eq_some_iff.1 hafter, List.append_assoc]
      rw [hlong]
    | none =>
      rw [hafter] at h
      obtain ⟨⟨a', b'⟩, hcut, h⟩ := Option.map_eq_some_iff.1 h
      cases h
      -- the mark fits into what it was found in, so nothing that follows can bring it forward
      have hnone : after? mark (c :: (t ++ rest)) = none := by
        rw [after?_eq_none_iff] at hafter ⊢
        intro hpre
        refine hafter (List.prefix_of_prefix_length_le hpre (List.prefix_append (c :: t) rest) ?_)
        have hlength := congrArg List.length (eq_append_of_cut? hcut)
        simp only [List.length_append, List.length_cons] at hlength ⊢
        omega
      rw [hnone, cut?_append_of_eq_some hm rest hcut]
      rfl

theorem cut?_eq_none_iff (hm : mark ≠ []) : ∀ {t : Text}, cut? mark t = none ↔ ¬ mark <:+: t
  | [] => by simp [cut?, hm]
  | c :: t => by
    rw [cut?, List.infix_cons_iff, not_or, ← cut?_eq_none_iff hm, ← after?_eq_none_iff]
    cases after? mark (c :: t) <;> simp

/-! ## Marks that do not overlap themselves -/

/-- Where the mark ends, it does not begin again before its end. -/
def IsBorderless (mark : Text) : Prop := ∀ v, v <:+ mark → v <+: mark → v = [] ∨ v = mark

theorem isBorderless_cons (hm : c ∉ m) : IsBorderless (c :: m) := by
  intro v hsuffix hprefix
  rcases List.suffix_cons_iff.1 hsuffix with h | h
  · exact .inr h
  · cases v with
    | nil => exact .inl rfl
    | cons d v =>
      obtain rfl := (List.cons_prefix_cons.1 hprefix).1
      exact absurd (h.mem List.mem_cons_self) hm

/-- A mark behind a text is the first one if the text has none in it. -/
theorem IsBorderless.cut? (hb : IsBorderless mark) (hm : mark ≠ []) (rest : Text) :
    ∀ {t : Text}, ¬ mark <:+: t → Text.cut? mark (t ++ (mark ++ rest)) = some (t, rest)
  | [], _ => cut?_mark hm rest
  | c :: t, h => by
    have hnone : after? mark (c :: (t ++ (mark ++ rest))) = none := by
      rw [after?_eq_none_iff, ← List.cons_append]
      intro hpre
      rcases List.prefix_or_prefix_of_prefix hpre (List.prefix_append _ _) with hle | ⟨v, rfl⟩
      · exact h hle.isInfix
      · -- the mark would end in `v`, with which the next one begins
        rw [List.prefix_append_right_inj] at hpre
        have hshort : v.length < (c :: t ++ v).length := by
          rw [List.length_append, List.length_cons]
          omega
        have hv := List.prefix_of_prefix_length_le hpre (List.prefix_append _ rest) hshort.le
        rcases hb v (List.suffix_append _ v) hv with rfl | hv
        · exact h (by simp)
        · exact hshort.ne (congrArg List.length hv)
    rw [List.cons_append, Text.cut?, hnone, hb.cut? hm rest fun h' => h (List.infix_cons h')]
    rfl

end ModuleRules.Text
