import ModuleRules.Proofs.Text.Affix
import ModuleRules.Rule.Keyword

/-!
# The keyword of a line

At most one keyword starts a line, so the one that is found is the one.
-/

namespace ModuleRules.Keyword

theorem mem_all (k : Keyword) : k ∈ all := by
  cases k <;> decide

theorem eq_of_text_starts {j k : Keyword} (h : j.text <+: k.text) : j = k := by
  revert h
  cases j <;> cases k <;> decide

theorem eq_of_starts {j k : Keyword} {line : Text} (hj : j.text <+: line) (hk : k.text <+: line) :
    j = k := by
  rcases List.prefix_or_prefix_of_prefix hj hk with h | h
  · exact eq_of_text_starts h
  · exact (eq_of_text_starts h).symm

theorem eq_append_of_ofLine? {line body : Text} {k : Keyword} (h : ofLine? line = some (k, body)) :
    line = k.text ++ body := by
  obtain ⟨j, -, hj⟩ := List.exists_of_findSome?_eq_some h
  obtain ⟨b, hb, hjb⟩ := Option.map_eq_some_iff.1 hj
  cases hjb
  exact Text.after?_eq_some_iff.1 hb

theorem ofLine?_eq_none_iff {line : Text} :
    ofLine? line = none ↔ ∀ k : Keyword, ¬ k.text <+: line := by
  rw [ofLine?, List.findSome?_eq_none_iff]
  constructor
  · rintro h k ⟨body, rfl⟩
    have := h k (mem_all k)
    rw [Text.after?_eq_some_iff.2 rfl] at this
    cases this
  · intro h k _
    rw [Option.map_eq_none_iff, Option.eq_none_iff_forall_ne_some]
    intro body hbody
    exact h k ⟨body, (Text.after?_eq_some_iff.1 hbody).symm⟩

theorem ofLine?_eq_some_iff {line body : Text} {k : Keyword} :
    ofLine? line = some (k, body) ↔ line = k.text ++ body := by
  refine ⟨eq_append_of_ofLine?, ?_⟩
  rintro rfl
  cases h : ofLine? (k.text ++ body) with
  | none => exact absurd ⟨body, rfl⟩ (ofLine?_eq_none_iff.1 h k)
  | some found =>
    obtain ⟨j, b⟩ := found
    have hj := eq_append_of_ofLine? h
    obtain rfl := eq_of_starts ⟨b, hj.symm⟩ ⟨body, rfl⟩
    rw [List.append_cancel_left hj]

end ModuleRules.Keyword
