import ModuleRules.Configuration.Directive
import ModuleRules.Proofs.Artifact.Coordinate
import ModuleRules.Proofs.Identity
import ModuleRules.Proofs.Rule.Keyword

/-!
# Directives that read back

What may follow each keyword, as a relation (`parse_eq_ok_iff`). The parts of a
directive that was read are trimmed and hold none of the marks between them. A
directive with such parts is read from its own text (`parse_text`), so each one
that is read at all reads back.
-/

namespace ModuleRules

open Text

namespace Directive

/-! ## What is read as a directive -/

/-- The directive is what a line with this body says after the right keyword. -/
inductive HasBody : Directive → Text → Prop
  | turn {t : Text} {id : ModuleId} (h : moduleId t = .ok id) : HasBody (turn id) t
  | add {t : Text} {target : ModuleRef} (h : reference t = .ok target) :
    HasBody (rule (.add target)) t
  | addExported {t : Text} {target : ModuleRef} (h : reference t = .ok target) :
    HasBody (rule (.addExported target)) t
  | makeOptional {t : Text} {id : ModuleId} (h : moduleId t = .ok id) :
    HasBody (rule (.makeOptional id)) t
  | replace {a b : Text} {old new : ModuleId} (ha : '>' ∉ a) (hb : '>' ∉ b)
    (hold : moduleId a = .ok old) (hnew : moduleId b = .ok new) :
    HasBody (rule (.replace old new)) (a ++ '>' :: b)
  | remove {t : Text} {pattern : Pattern} (h : trim t = pattern.text) (hne : pattern.text ≠ []) :
    HasBody (rule (.remove pattern)) t
  | force {a b version : Text} {selector : Selector} (ha : '=' ∉ a)
    (hselector : Selector.parse a = .ok selector) (hb : trim b = version) (hne : version ≠ []) :
    HasBody (rule (.force selector version)) (a ++ '=' :: b)

theorem replacement_eq_ok_iff {t : Text} {r : Rule} :
    replacement t = .ok r ↔ r.keyword = .replace ∧ HasBody (rule r) t := by
  constructor
  · intro h
    unfold replacement at h
    split at h
    next => cases h
    next a b hsplit =>
      obtain ⟨rfl, ha⟩ := splitOnce_eq_some_iff.1 hsplit
      split at h
      next => cases h
      next hb =>
        obtain ⟨old, hold, h⟩ := bind_eq_ok.1 h
        obtain ⟨new, hnew, h⟩ := bind_eq_ok.1 h
        cases h
        exact ⟨rfl, .replace ha hb hold hnew⟩
  · rintro ⟨hk, h⟩
    cases h with
    | @replace a b old new ha hb hold hnew =>
      have hsplit : splitOnce '>' (a ++ '>' :: b) = some (a, b) :=
        splitOnce_eq_some_iff.2 ⟨rfl, ha⟩
      simp only [replacement, hsplit, if_neg hb, hold, hnew]
      rfl
    | _ => cases hk

theorem removal_eq_ok_iff {t : Text} {r : Rule} :
    removal t = .ok r ↔ r.keyword = .remove ∧ HasBody (rule r) t := by
  constructor
  · intro h
    unfold removal at h
    split at h
    next => cases h
    next htrim =>
      cases h
      exact ⟨rfl, .remove htrim (List.cons_ne_nil _ _)⟩
  · rintro ⟨hk, h⟩
    cases h with
    | @remove _ pattern h hne =>
      obtain ⟨c, p, hp⟩ := List.exists_cons_of_ne_nil hne
      simp only [removal, h, hp]
      rw [← hp]
    | _ => cases hk

theorem forcing_eq_ok_iff {t : Text} {r : Rule} :
    forcing t = .ok r ↔ r.keyword = .force ∧ HasBody (rule r) t := by
  constructor
  · intro h
    unfold forcing at h
    split at h
    next => cases h
    next a b hsplit =>
      obtain ⟨rfl, ha⟩ := splitOnce_eq_some_iff.1 hsplit
      split at h
      next => cases h
      next selector hselector =>
        split at h
        next => cases h
        next hb =>
          cases h
          exact ⟨rfl, .force ha hselector hb (List.cons_ne_nil _ _)⟩
  · rintro ⟨hk, h⟩
    cases h with
    | @force a b version selector ha hselector hb hne =>
      have hsplit : splitOnce '=' (a ++ '=' :: b) = some (a, b) :=
        splitOnce_eq_some_iff.2 ⟨rfl, ha⟩
      obtain ⟨c, v, rfl⟩ := List.exists_cons_of_ne_nil hne
      simp only [forcing, hsplit, hselector, hb]
    | _ => cases hk

theorem ofBody_eq_ok_iff {t : Text} {k : Keyword} {d : Directive} :
    ofBody t k = .ok d ↔ d.keyword = k ∧ HasBody d t := by
  constructor
  · intro h
    cases k with
    | turn =>
      obtain ⟨id, hid, rfl⟩ := map_eq_ok.1 h
      exact ⟨rfl, .turn hid⟩
    | add =>
      obtain ⟨target, htarget, rfl⟩ := map_eq_ok.1 h
      exact ⟨rfl, .add htarget⟩
    | addExported =>
      obtain ⟨target, htarget, rfl⟩ := map_eq_ok.1 h
      exact ⟨rfl, .addExported htarget⟩
    | optional =>
      obtain ⟨id, hid, rfl⟩ := map_eq_ok.1 h
      exact ⟨rfl, .makeOptional hid⟩
    | replace =>
      obtain ⟨r, hr, rfl⟩ := map_eq_ok.1 h
      exact replacement_eq_ok_iff.1 hr
    | remove =>
      obtain ⟨r, hr, rfl⟩ := map_eq_ok.1 h
      exact removal_eq_ok_iff.1 hr
    | force =>
      obtain ⟨r, hr, rfl⟩ := map_eq_ok.1 h
      exact forcing_eq_ok_iff.1 hr
  · rintro ⟨rfl, h⟩
    cases h with
    | turn hid => exact map_eq_ok.2 ⟨_, hid, rfl⟩
    | add htarget => exact map_eq_ok.2 ⟨_, htarget, rfl⟩
    | addExported htarget => exact map_eq_ok.2 ⟨_, htarget, rfl⟩
    | makeOptional hid => exact map_eq_ok.2 ⟨_, hid, rfl⟩
    | replace ha hb hold hnew =>
      exact map_eq_ok.2 ⟨_, replacement_eq_ok_iff.2 ⟨rfl, .replace ha hb hold hnew⟩, rfl⟩
    | remove h hne => exact map_eq_ok.2 ⟨_, removal_eq_ok_iff.2 ⟨rfl, .remove h hne⟩, rfl⟩
    | force ha hselector hb hne =>
      exact map_eq_ok.2 ⟨_, forcing_eq_ok_iff.2 ⟨rfl, .force ha hselector hb hne⟩, rfl⟩

theorem parse_eq_ok_iff {line : Text} {d : Directive} :
    parse line = .ok d ↔ ∃ t, line = d.keyword.text ++ t ∧ HasBody d t := by
  unfold parse
  cases hline : Keyword.ofLine? line with
  | none =>
    refine iff_of_false (by simp) ?_
    rintro ⟨t, rfl, -⟩
    rw [Keyword.ofLine?_eq_some_iff.2 rfl] at hline
    cases hline
  | some kt =>
    obtain ⟨k, t⟩ := kt
    simp only [mapError_eq_ok, ofBody_eq_ok_iff]
    constructor
    · rintro ⟨rfl, h⟩
      exact ⟨t, Keyword.ofLine?_eq_some_iff.1 hline, h⟩
    · rintro ⟨t', rfl, h⟩
      rw [Keyword.ofLine?_eq_some_iff.2 rfl] at hline
      cases hline
      exact ⟨rfl, h⟩

end Directive

/-! ## Sound directives -/

def Rule.IsSound : Rule → Prop
  | replace old new => (old.IsSound ∧ '>' ∉ old.text) ∧ new.IsSound ∧ '>' ∉ new.text
  | makeOptional id => id.IsSound
  | add target => target.IsSound
  | addExported target => target.IsSound
  | remove pattern => pattern.text ≠ [] ∧ trim pattern.text = pattern.text
  | force selector version => (selector.segments.IsSound ∧ '=' ∉ selector.text) ∧
      version ≠ [] ∧ trim version = version

namespace Directive

def IsSound : Directive → Prop
  | turn id => id.IsSound
  | rule r => r.IsSound

theorem reference_eq_ok_iff {t : Text} {r : ModuleRef} :
    reference t = .ok r ↔ r = ModuleRef.read t ∧ r.name ≠ [] := by
  unfold reference
  by_cases h : (ModuleRef.read t).name = []
  · simp only [h, if_true]
    refine iff_of_false (by simp) ?_
    rintro ⟨rfl, hne⟩
    exact hne h
  · simp only [h, if_false, Except.ok.injEq]
    constructor
    · rintro rfl
      exact ⟨rfl, h⟩
    · rintro ⟨rfl, -⟩
      rfl

theorem isSound_of_reference {t : Text} {r : ModuleRef} (h : reference t = .ok r) :
    r.IsSound := by
  obtain ⟨rfl, hne⟩ := reference_eq_ok_iff.1 h
  exact ModuleRef.isSound_read hne

theorem isSound_of_moduleId {t : Text} {id : ModuleId} (h : moduleId t = .ok id) :
    id.IsSound := by
  obtain ⟨r, hr, rfl⟩ := map_eq_ok.1 h
  exact (isSound_of_reference hr).identity

theorem not_mem_text_of_reference {c : Char} {t : Text} {r : ModuleRef} (hc : c ≠ ':')
    (ht : c ∉ t) (h : reference t = .ok r) : c ∉ r.text := by
  obtain ⟨rfl, -⟩ := reference_eq_ok_iff.1 h
  exact ModuleRef.not_mem_text_read hc ht

theorem not_mem_text_of_moduleId {c : Char} {t : Text} {id : ModuleId} (hc : c ∉ ':' :: mainSlot)
    (ht : c ∉ t) (h : moduleId t = .ok id) : c ∉ id.text := by
  obtain ⟨r, hr, rfl⟩ := map_eq_ok.1 h
  exact ModuleRef.not_mem_text_identity hc
    (not_mem_text_of_reference (List.ne_of_not_mem_cons hc) ht hr)

theorem isSound_of_selector {t : Text} {s : Selector} (h : Selector.parse t = .ok s) :
    s.segments.IsSound := by
  obtain ⟨s, hs, rfl⟩ := map_eq_ok.1 h
  exact Segments.isSound_of_parse hs

theorem not_mem_text_of_selector {c : Char} {t : Text} {s : Selector} (hc : c ≠ ':') (ht : c ∉ t)
    (h : Selector.parse t = .ok s) : c ∉ s.text := by
  obtain ⟨s, hs, rfl⟩ := map_eq_ok.1 h
  exact Segments.not_mem_text_of_parse hc (fun h => ht ((trim_sublist t).mem h)) hs

theorem HasBody.isSound {d : Directive} {t : Text} (h : HasBody d t) : d.IsSound := by
  cases h with
  | turn hid => exact isSound_of_moduleId hid
  | add htarget => exact isSound_of_reference htarget
  | addExported htarget => exact isSound_of_reference htarget
  | makeOptional hid => exact isSound_of_moduleId hid
  | replace ha hb hold hnew =>
    have harrow : '>' ∉ ':' :: mainSlot := by decide
    exact ⟨⟨isSound_of_moduleId hold, not_mem_text_of_moduleId harrow ha hold⟩,
      isSound_of_moduleId hnew, not_mem_text_of_moduleId harrow hb hnew⟩
  | remove h hne => exact ⟨hne, h ▸ trim_trim t⟩
  | @force a b version selector ha hselector hb hne =>
    exact ⟨⟨isSound_of_selector hselector, not_mem_text_of_selector (by decide) ha hselector⟩,
      hne, hb ▸ trim_trim b⟩

theorem isSound_of_parse {line : Text} {d : Directive} (h : parse line = .ok d) : d.IsSound := by
  obtain ⟨t, -, ht⟩ := parse_eq_ok_iff.1 h
  exact ht.isSound

/-! ## Reading back -/

def body : Directive → Text
  | turn id => id.text
  | rule r => r.body

theorem text_eq (d : Directive) : d.text = d.keyword.text ++ d.body := by
  cases d <;> rfl

theorem reference_text {r : ModuleRef} (h : r.IsSound) : reference r.text = .ok r :=
  reference_eq_ok_iff.2 ⟨h.read_text.symm, h.name.ne_nil⟩

theorem moduleId_text {id : ModuleId} (h : id.IsSound) : moduleId id.text = .ok id :=
  map_eq_ok.2 ⟨id.ref, reference_text h.ref, h.identity_ref⟩

theorem selector_text {s : Selector} (h : s.segments.IsSound) : Selector.parse s.text = .ok s := by
  unfold Selector.parse
  rw [Selector.text, Segments.trim_text h]
  exact map_eq_ok.2 ⟨s.segments, Segments.parse_text h _, rfl⟩

theorem IsSound.hasBody {d : Directive} (h : d.IsSound) : HasBody d d.body := by
  cases d with
  | turn id => exact .turn (moduleId_text h)
  | rule r =>
    cases r with
    | makeOptional id => exact .makeOptional (moduleId_text h)
    | add target => exact .add (reference_text h)
    | addExported target => exact .addExported (reference_text h)
    | replace old new =>
      obtain ⟨⟨hold, hno⟩, hnew, hno'⟩ := h
      exact .replace hno hno' (moduleId_text hold) (moduleId_text hnew)
    | remove pattern => exact .remove h.2 h.1
    | force selector version =>
      obtain ⟨⟨hselector, hno⟩, hne, htrim⟩ := h
      exact .force hno (selector_text hselector) htrim hne

theorem parse_text {d : Directive} (h : d.IsSound) : parse d.text = .ok d :=
  parse_eq_ok_iff.2 ⟨d.body, d.text_eq, h.hasBody⟩

/-! ## Lines -/

theorem newline_not_mem_of_parse {line : Text} {d : Directive} (h : parse line = .ok d)
    (hline : '\n' ∉ line) : '\n' ∉ d.text := by
  obtain ⟨t, rfl, hd⟩ := parse_eq_ok_iff.1 h
  have hmain : '\n' ∉ ':' :: mainSlot := by decide
  have htrim {u : Text} (hu : '\n' ∉ u) : '\n' ∉ trim u := fun h => hu ((trim_sublist u).mem h)
  have hkeyword : '\n' ∉ d.keyword.text := fun h => hline (List.mem_append_left _ h)
  have ht : '\n' ∉ t := fun h => hline (List.mem_append_right _ h)
  have hbody : '\n' ∉ d.body := by
    cases hd with
    | turn hid => exact not_mem_text_of_moduleId hmain ht hid
    | add htarget => exact not_mem_text_of_reference (by decide) ht htarget
    | addExported htarget => exact not_mem_text_of_reference (by decide) ht htarget
    | makeOptional hid => exact not_mem_text_of_moduleId hmain ht hid
    | @replace a b _ _ _ _ hold hnew =>
      obtain ⟨ha, hb⟩ : '\n' ∉ a ∧ '\n' ∉ b := by simpa using ht
      have hold' := not_mem_text_of_moduleId hmain ha hold
      have hnew' := not_mem_text_of_moduleId hmain hb hnew
      simp [body, Rule.body, hold', hnew']
    | @remove _ pattern h _ =>
      have hpattern : '\n' ∉ pattern.text := h ▸ htrim ht
      exact hpattern
    | @force a b _ _ _ hselector hversion _ =>
      obtain ⟨ha, hb⟩ : '\n' ∉ a ∧ '\n' ∉ b := by simpa using ht
      have hselector' := not_mem_text_of_selector (by decide) ha hselector
      have hversion' := hversion ▸ htrim hb
      simp [body, Rule.body, hselector', hversion']
  rw [text_eq]
  simp [hkeyword, hbody]

/-- No blank stands at the end of what follows the keyword. -/
theorem exists_body_eq {d : Directive} (h : d.IsSound) :
    ∃ m q, d.body = m ++ q ∧ q ≠ [] ∧ trim q = q := by
  have hid {id : ModuleId} (h : id.IsSound) : id.text ≠ [] ∧ trim id.text = id.text :=
    ⟨by simp [ModuleId.text], h.ref.trim_text⟩
  have href {r : ModuleRef} (h : r.IsSound) : r.text ≠ [] ∧ trim r.text = r.text := by
    refine ⟨fun hnil => h.name.ne_nil ?_, h.trim_text⟩
    unfold ModuleRef.text at hnil
    split at hnil <;> simp_all
  cases d with
  | turn id => exact ⟨[], id.text, rfl, hid h⟩
  | rule r =>
    cases r with
    | makeOptional id => exact ⟨[], id.text, rfl, hid h⟩
    | add target => exact ⟨[], target.text, rfl, href h⟩
    | addExported target => exact ⟨[], target.text, rfl, href h⟩
    | replace old new =>
      exact ⟨old.text ++ ['>'], new.text, by simp [body, Rule.body], hid h.2.1⟩
    | remove pattern => exact ⟨[], pattern.text, rfl, h⟩
    | force selector version =>
      exact ⟨selector.text ++ ['='], version, by simp [body, Rule.body], h.2⟩

theorem trim_text {d : Directive} (h : d.IsSound) : trim d.text = d.text := by
  obtain ⟨m, q, hbody, hne, htrim⟩ := exists_body_eq h
  rw [text_eq, hbody, trim_eq_self_iff]
  constructor
  · cases d.keyword <;> rintro _ ⟨⟩ <;> rfl
  · rw [List.getLast?_append_of_ne_nil _ (by simp [hne]), List.getLast?_append_of_ne_nil _ hne]
    exact (trim_eq_self_iff.1 htrim).2

end Directive

end ModuleRules
