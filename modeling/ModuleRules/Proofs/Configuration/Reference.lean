import Mathlib.Data.Set.Function
import ModuleRules.Proofs.Configuration.Directive

/-!
# Identities and selectors that read back

An identity is read from its own text if and only if its name and its slot are
bare: not empty, without a colon and without a blank at either end. The parts
of what is read from any text, or stands in a directive, are bare. So the bare
identities are the ones that are read at all, and no two of them are written
alike; the same goes for selectors (`reads_back_iff_isBare`).
-/

namespace ModuleRules

open Text

def Text.IsBare (p : Text) : Prop :=
  p ≠ [] ∧ ':' ∉ p ∧ (∀ a ∈ p.head?, isBlank a = false) ∧ ∀ a ∈ p.getLast?, isBlank a = false

theorem Text.isSegment_iff {p : Text} : IsSegment p ↔ IsBare p := by
  unfold IsBare
  rw [← trim_eq_self_iff]
  exact ⟨fun h => ⟨h.ne_nil, h.no_colon, h.trim_eq⟩, fun h => ⟨h.1, h.2.1, h.2.2⟩⟩

/-! ## Identities -/

namespace ModuleId

def IsBare (id : ModuleId) : Prop := Text.IsBare id.name ∧ Text.IsBare id.slot

theorem isSound_iff {id : ModuleId} : id.IsSound ↔ id.IsBare := by
  unfold IsBare
  rw [← isSegment_iff, ← isSegment_iff]
  exact ⟨fun h => ⟨h.name, h.slot⟩, fun h => ⟨h.1, h.2⟩⟩

/-- Directives read identities as other texts do. -/
theorem parse_eq_ok_iff {t : Text} {id : ModuleId} :
    ModuleId.parse t = .ok id ↔ Directive.moduleId t = .ok id := by
  unfold ModuleId.parse Directive.moduleId Directive.reference
  by_cases h : (ModuleRef.read t).name = []
  · simp [h, Except.map]
  · simp [h, Except.map]

theorem isBare_of_parse {t : Text} {id : ModuleId} (h : ModuleId.parse t = .ok id) : id.IsBare :=
  isSound_iff.1 (Directive.isSound_of_moduleId (parse_eq_ok_iff.1 h))

theorem IsBare.parse_text {id : ModuleId} (h : id.IsBare) : ModuleId.parse id.text = .ok id :=
  parse_eq_ok_iff.2 (Directive.moduleId_text (isSound_iff.2 h))

theorem injOn_text : Set.InjOn ModuleId.text {id | id.IsBare} := by
  intro a ha b hb h
  have hparse := IsBare.parse_text ha
  rw [h, IsBare.parse_text hb] at hparse
  exact (Except.ok.inj hparse).symm

end ModuleId

/-! ## Directives -/

namespace Directive

/-- The identities in the directives that take them as they are: those that turn to a module, make
a dependency optional or replace one. -/
def identities : Directive → List ModuleId
  | turn id => [id]
  | rule (.makeOptional id) => [id]
  | rule (.replace old new) => [old, new]
  | rule _ => []

theorem IsSound.isBare {d : Directive} (h : d.IsSound) : ∀ id ∈ d.identities, id.IsBare := by
  intro id hid
  apply ModuleId.isSound_iff.1
  cases d with
  | turn i => exact List.mem_singleton.1 hid ▸ h
  | rule r =>
    cases r with
    | makeOptional i => exact List.mem_singleton.1 hid ▸ h
    | replace old new =>
      obtain ⟨⟨hold, -⟩, hnew, -⟩ := h
      rcases List.mem_pair.1 hid with rfl | rfl
      · exact hold
      · exact hnew
    | add => cases hid
    | addExported => cases hid
    | remove => cases hid
    | force => cases hid

end Directive

theorem ModuleId.IsBare.exists_line {id : ModuleId} (h : id.IsBare) :
    ∃ line d, Directive.parse line = .ok d ∧ id ∈ d.identities :=
  ⟨_, .turn id, Directive.parse_text (isSound_iff.2 h), List.mem_singleton_self id⟩

/-! ## Selectors -/

namespace Selector

def parts (s : Selector) : List Text :=
  s.group :: s.artifact :: (s.packaging.toList ++ s.classifier.toList)

def IsBare (s : Selector) : Prop := ∀ p ∈ s.parts, Text.IsBare p

theorem isSound_iff {s : Selector} : s.segments.IsSound ↔ s.IsBare := by
  simp only [IsBare, parts, ← isSegment_iff, List.forall_mem_cons, List.forall_mem_append,
    Option.mem_toList]
  exact ⟨fun h => ⟨h.group, h.artifact, h.third, h.fourth⟩,
    fun ⟨hg, ha, ht, hf⟩ => ⟨hg, ha, ht, hf⟩⟩

theorem isBare_of_parse {t : Text} {s : Selector} (h : Selector.parse t = .ok s) : s.IsBare :=
  isSound_iff.1 (Directive.isSound_of_selector h)

theorem IsBare.parse_text {s : Selector} (h : s.IsBare) : Selector.parse s.text = .ok s :=
  Directive.selector_text (isSound_iff.2 h)

end Selector

/-- **Identities and selectors read back if and only if their parts are bare**, and such are all
that are read. Bare identities that are written alike are the same. -/
theorem reads_back_iff_isBare :
    (∀ id : ModuleId, (ModuleId.parse id.text = .ok id ↔ id.IsBare) ∧
      ((∃ t, ModuleId.parse t = .ok id) ↔ id.IsBare) ∧
      ((∃ line d, Directive.parse line = .ok d ∧ id ∈ d.identities) ↔ id.IsBare)) ∧
    Set.InjOn ModuleId.text {id | id.IsBare} ∧
    ∀ s : Selector, (Selector.parse s.text = .ok s ↔ s.IsBare) ∧
      ((∃ t, Selector.parse t = .ok s) ↔ s.IsBare) := by
  refine ⟨fun id => ⟨?_, ?_, ?_⟩, ModuleId.injOn_text, fun s => ⟨?_, ?_⟩⟩
  · exact ⟨ModuleId.isBare_of_parse, ModuleId.IsBare.parse_text⟩
  · exact ⟨fun ⟨t, ht⟩ => ModuleId.isBare_of_parse ht, fun h => ⟨_, h.parse_text⟩⟩
  · refine ⟨?_, ModuleId.IsBare.exists_line⟩
    intro ⟨line, d, hline, hid⟩
    exact (Directive.isSound_of_parse hline).isBare id hid
  · exact ⟨Selector.isBare_of_parse, Selector.IsBare.parse_text⟩
  · exact ⟨fun ⟨t, ht⟩ => Selector.isBare_of_parse ht, fun h => ⟨_, h.parse_text⟩⟩

end ModuleRules
