import Mathlib.Tactic.Common
import ModuleRules.Json.Printer
import ModuleRules.Proofs.Json.Tokens

/-!
# Written values read back

A string literal is read back character by character, and a layout scans into
the tokens of its value. So a value without numbers whose strings are all texts
is read back from its layout (`parse?_pretty`).
-/

namespace ModuleRules.Json

/-! ## String literals -/

theorem hexValue?_hexDigit : ∀ n < 16, Token.hexValue? (hexDigit n) = some n := by decide

theorem unit?_hexDigit {n : Nat} (h : n < 0x20) :
    Token.unit? '0' '0' (hexDigit (n / 16)) (hexDigit (n % 16)) = some n := by
  have hhigh := hexValue?_hexDigit (n / 16) (by omega)
  have hlow := hexValue?_hexDigit (n % 16) (by omega)
  have hzero : Token.hexValue? '0' = some 0 := by decide
  simp only [Token.unit?, hhigh, hlow, hzero, Option.bind_eq_bind, Option.bind_some]
  exact congrArg some (by omega)

theorem assemble?_unit {n : Nat} (h : n < 0x20) (ps : List Token.Piece) :
    Token.assemble? (.unit n :: ps) = (Token.assemble? ps).map (Char.ofNat n :: ·) := by
  have hhigh : Token.isHigh n = false := by simp [Token.isHigh]; omega
  have hlow : Token.isLow n = false := by simp [Token.isLow]; omega
  cases ps with
  | nil => simp [Token.assemble?, hhigh, hlow]
  | cons p ps => cases p <;> simp [Token.assemble?, hhigh, hlow]

/-- An escaped character is read as one piece, and that piece stands for the character. -/
theorem pieces?_escape (c : Char) (r : Text) : ∃ p,
    Token.pieces? (escape c ++ r) = (Token.pieces? r).bind (fun q => some (p :: q.1, q.2)) ∧
      ∀ ps, Token.assemble? (p :: ps) = (Token.assemble? ps).map (c :: ·) := by
  unfold escape
  split
  case h_8 hquote hslash _ _ _ _ _ =>
    split
    next hc =>
      refine ⟨.unit c.toNat, ?_, fun ps => ?_⟩
      · simp [Token.pieces?, unit?_hexDigit hc]
      · rw [assemble?_unit hc, Char.ofNat_toNat]
    next hc =>
      refine ⟨.char c, ?_, fun _ => rfl⟩
      rw [List.singleton_append, Token.pieces?, if_neg hc]
      · rfl
      · exact hquote
      · exact fun _ _ _ _ _ h _ => hslash h
      · exact fun _ _ h _ => hslash h
  all_goals exact ⟨.char _, rfl, fun _ => rfl⟩

theorem pieces?_literal (r : Text) : ∀ t : Text, ∃ ps,
    Token.pieces? (t.flatMap escape ++ '"' :: r) = some (ps, r) ∧ Token.assemble? ps = some t
  | [] => ⟨[], rfl, rfl⟩
  | c :: t => by
    obtain ⟨ps, hps, ht⟩ := pieces?_literal r t
    obtain ⟨p, hp, hc⟩ := pieces?_escape c (t.flatMap escape ++ '"' :: r)
    refine ⟨p :: ps, ?_, ?_⟩
    · rw [List.flatMap_cons, List.append_assoc, hp, hps]
      rfl
    · rw [hc, ht]
      rfl

theorem quote_append (t r : Text) :
    quote (some t) ++ r = '"' :: (t.flatMap escape ++ '"' :: r) := by
  unfold quote
  rw [List.append_assoc, List.singleton_append]
  rfl

theorem next?_literal (t r : Text) :
    Token.next? ('"' :: (t.flatMap escape ++ '"' :: r)) = some (.string (some t), r) := by
  obtain ⟨ps, hps, ht⟩ := pieces?_literal r t
  simp only [Token.next?, hps, Option.map_some, ht]

/-! ## Layouts -/

mutual

/-- There is no number, and every string is a text. -/
def isPlain : Json → Bool
  | .number _ => false
  | .string t => t.isSome
  | .array items => itemsPlain items
  | .object fields => fieldsPlain fields
  | _ => true

def itemsPlain : List Json → Bool
  | [] => true
  | j :: js => isPlain j && itemsPlain js

def fieldsPlain : List (Option Text × Json) → Bool
  | [] => true
  | (k, j) :: fs => k.isSome && isPlain j && fieldsPlain fs

end

namespace Scans

variable {t rest : Text} {ts : List Token}

/-- A character that is a token on its own. -/
theorem mark {c : Char} {k : Token} (h : Scans t ts rest) (hc : Token.isSpace c = false := by rfl)
    (hk : Token.next? (c :: t) = some (k, t) := by rfl) : Scans (c :: t) (k :: ts) rest :=
  token hc hk (Nat.le_refl _) h

theorem literal (s : Text) (h : Scans t ts rest) :
    Scans (quote (some s) ++ t) (.string (some s) :: ts) rest := by
  rw [quote_append]
  exact token rfl (next?_literal s t) (by simp; omega) h

theorem newline (n : Nat) (h : Scans t ts rest) : Scans (Json.newline n ++ t) ts rest := by
  have hspaces : ∀ c ∈ Json.newline n, Token.isSpace c = true := by
    intro c hc
    rcases List.mem_cons.1 hc with rfl | hc
    · rfl
    · rw [List.eq_of_mem_replicate hc]
      rfl
  exact (spaces _ t hspaces).append h

end Scans

mutual

theorem scans_prettyAt : ∀ (j : Json) (n : Nat) (rest : Text), j.isPlain = true →
    Scans (prettyAt n j ++ rest) (tokens j) rest
  | .null, _, rest, _ => .token rfl rfl (by simp; omega) (.nil rest)
  | .bool true, _, rest, _ => .token rfl rfl (by simp; omega) (.nil rest)
  | .bool false, _, rest, _ => .token rfl rfl (by simp; omega) (.nil rest)
  | .string (some t), _, rest, _ => .literal t (.nil rest)
  | .array [], _, rest, _ => .mark (.mark (.nil rest))
  | .object [], _, rest, _ => .mark (.mark (.nil rest))
  | .array (j :: js), n, rest, h => by
    obtain ⟨hj, hjs⟩ := Bool.and_eq_true_iff.1 h
    have hend : Scans (newline n ++ ']' :: rest) [.arrayEnd] rest := .newline n (.mark (.nil rest))
    have hitems := (scans_prettyItems js (n + 1) _ hjs).append hend
    have hall := (scans_prettyAt j (n + 1) _ hj).append hitems
    have := Scans.mark (c := '[') (k := .arrayStart) (hall.newline (n + 1))
    simpa [prettyAt, tokens] using this
  | .object ((some k, j) :: fs), n, rest, h => by
    obtain ⟨hj, hfs⟩ := Bool.and_eq_true_iff.1 h
    have hend : Scans (newline n ++ '\x7d' :: rest) [.objectEnd] rest :=
      .newline n (.mark (.nil rest))
    have hfields := (scans_prettyFields fs (n + 1) _ hfs).append hend
    have hvalue := (scans_prettyAt j (n + 1) _ hj).append hfields
    have hfirst := Scans.literal k (.mark (c := ':') (k := .colon) (.space (c := ' ') rfl hvalue))
    have := Scans.mark (c := '\x7b') (k := .objectStart) (hfirst.newline (n + 1))
    simpa [prettyAt, tokens] using this

theorem scans_prettyItems : ∀ (js : List Json) (n : Nat) (rest : Text), itemsPlain js = true →
    Scans (prettyItems n js ++ rest) (itemTokens js) rest
  | [], _, rest, _ => .nil rest
  | j :: js, n, rest, h => by
    obtain ⟨hj, hjs⟩ := Bool.and_eq_true_iff.1 h
    have hitems := (scans_prettyAt j n _ hj).append (scans_prettyItems js n rest hjs)
    have := Scans.mark (c := ',') (k := .comma) (hitems.newline n)
    simpa [prettyItems, itemTokens] using this

theorem scans_prettyFields : ∀ (fs : List (Option Text × Json)) (n : Nat) (rest : Text),
    fieldsPlain fs = true → Scans (prettyFields n fs ++ rest) (fieldTokens fs) rest
  | [], _, rest, _ => .nil rest
  | (some k, j) :: fs, n, rest, h => by
    obtain ⟨hj, hfs⟩ := Bool.and_eq_true_iff.1 h
    have hvalue := (scans_prettyAt j n _ hj).append (scans_prettyFields fs n rest hfs)
    have hfirst := Scans.literal k (.mark (c := ':') (k := .colon) (.space (c := ' ') rfl hvalue))
    have := Scans.mark (c := ',') (k := .comma) (hfirst.newline n)
    simpa [prettyFields, fieldTokens] using this

end

mutual

theorem scans_compact : ∀ (j : Json) (rest : Text), j.isPlain = true →
    Scans (compact j ++ rest) (tokens j) rest
  | .null, rest, _ => .token rfl rfl (by simp; omega) (.nil rest)
  | .bool true, rest, _ => .token rfl rfl (by simp; omega) (.nil rest)
  | .bool false, rest, _ => .token rfl rfl (by simp; omega) (.nil rest)
  | .string (some t), rest, _ => .literal t (.nil rest)
  | .array [], rest, _ => .mark (.mark (.nil rest))
  | .object [], rest, _ => .mark (.mark (.nil rest))
  | .array (j :: js), rest, h => by
    obtain ⟨hj, hjs⟩ := Bool.and_eq_true_iff.1 h
    have hend : Scans (']' :: rest) [.arrayEnd] rest := .mark (.nil rest)
    have hall := (scans_compact j _ hj).append ((scans_compactItems js _ hjs).append hend)
    have := Scans.mark (c := '[') (k := .arrayStart) hall
    simpa [compact, tokens] using this
  | .object ((some k, j) :: fs), rest, h => by
    obtain ⟨hj, hfs⟩ := Bool.and_eq_true_iff.1 h
    have hend : Scans ('\x7d' :: rest) [.objectEnd] rest := .mark (.nil rest)
    have hvalue := (scans_compact j _ hj).append ((scans_compactFields fs _ hfs).append hend)
    have hfirst := Scans.literal k (.mark (c := ':') (k := .colon) hvalue)
    have := Scans.mark (c := '\x7b') (k := .objectStart) hfirst
    simpa [compact, tokens] using this

theorem scans_compactItems : ∀ (js : List Json) (rest : Text), itemsPlain js = true →
    Scans (compactItems js ++ rest) (itemTokens js) rest
  | [], rest, _ => .nil rest
  | j :: js, rest, h => by
    obtain ⟨hj, hjs⟩ := Bool.and_eq_true_iff.1 h
    have hitems := (scans_compact j _ hj).append (scans_compactItems js rest hjs)
    have := Scans.mark (c := ',') (k := .comma) hitems
    simpa [compactItems, itemTokens] using this

theorem scans_compactFields : ∀ (fs : List (Option Text × Json)) (rest : Text),
    fieldsPlain fs = true → Scans (compactFields fs ++ rest) (fieldTokens fs) rest
  | [], rest, _ => .nil rest
  | (some k, j) :: fs, rest, h => by
    obtain ⟨hj, hfs⟩ := Bool.and_eq_true_iff.1 h
    have hvalue := (scans_compact j _ hj).append (scans_compactFields fs rest hfs)
    have hfirst := Scans.literal k (.mark (c := ':') (k := .colon) hvalue)
    have := Scans.mark (c := ',') (k := .comma) hfirst
    simpa [compactFields, fieldTokens] using this

end

/-- A layout is read back as its value, also with spaces behind it. -/
theorem parse?_pretty {j : Json} (h : j.isPlain = true) {s : Text}
    (hs : ∀ c ∈ s, Token.isSpace c = true) : parse? (j.pretty ++ s) = some j := by
  have hspaces := Scans.spaces s [] hs
  rw [List.append_nil] at hspaces
  have := (scans_prettyAt j 0 s h).append hspaces
  rw [List.append_nil] at this
  exact parse?_of_scans this

theorem parse?_compact {j : Json} (h : j.isPlain = true) : parse? j.compact = some j := by
  have := scans_compact j [] h
  rw [List.append_nil] at this
  exact parse?_of_scans this

inductive Layout
  | pretty
  | compact
  deriving DecidableEq, Repr

def Layout.write : Layout → Json → Text
  | pretty => Json.pretty
  | compact => Json.compact

theorem Layout.parse?_write (layout : Layout) {j : Json} (h : j.isPlain = true) :
    parse? (layout.write j) = some j := by
  cases layout with
  | pretty => simpa [write] using parse?_pretty h (s := []) (by simp)
  | compact => exact parse?_compact h

end ModuleRules.Json
