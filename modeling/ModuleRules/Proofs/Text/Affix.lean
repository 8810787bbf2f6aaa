import Mathlib.Tactic.Common
import ModuleRules.Text.Basic

/-!
# Beginnings and ends

Taking a beginning or a last character off a text undoes putting it there.
-/

namespace ModuleRules.Text

theorem after?_eq_some_iff : ∀ {start t r : Text}, after? start t = some r ↔ t = start ++ r
  | [], t, r => by simp [after?]
  | a :: start, [], r => by simp [after?]
  | a :: start, c :: t, r => by
    rw [after?, List.cons_append, List.cons_eq_cons, ← after?_eq_some_iff]
    by_cases h : a = c <;> simp [h, eq_comm]

theorem beforeLast?_eq_some_iff {c : Char} :
    ∀ {t r : Text}, beforeLast? c t = some r ↔ t = r ++ [c]
  | [], r => by simp [beforeLast?]
  | [d], r => by
    rw [beforeLast?]
    by_cases h : d = c <;> cases r <;> simp [h]
  | d :: e :: t, r => by
    rw [beforeLast?, Option.map_eq_some_iff]
    simp only [beforeLast?_eq_some_iff]
    cases r with
    | nil => simp
    | cons a r => simp [and_comm, eq_comm]

end ModuleRules.Text
