import Mathlib.Tactic.Common
import ModuleRules.Json.Parser

/-!
# The tokens of a value

A value as its list of tokens. The machine that reads JSON turns these back
into the value, whatever is open around it (`steps_tokens`), so a text that
scans into the tokens of a value is read as that value (`parse?_of_scans`).
-/

namespace ModuleRules.Json

/-! ## Tokens -/

mutual

def tokens : Json → List Token
  | .array [] => [.arrayStart, .arrayEnd]
  | .array (j :: js) => .arrayStart :: tokens j ++ itemTokens js ++ [.arrayEnd]
  | .object [] => [.objectStart, .objectEnd]
  | .object ((k, j) :: fs) =>
    .objectStart :: .string k :: .colon :: tokens j ++ fieldTokens fs ++ [.objectEnd]
  | .string t => [.string t]
  | j => [.scalar j]

def itemTokens : List Json → List Token
  | [] => []
  | j :: js => .comma :: tokens j ++ itemTokens js

def fieldTokens : List (Option Text × Json) → List Token
  | [] => []
  | (k, j) :: fs => .comma :: .string k :: .colon :: tokens j ++ fieldTokens fs

end

/-! ## The machine -/

namespace State

def steps? (s : State) (ts : List Token) : Option State := ts.foldlM step? s

theorem steps?_cons {s s' : State} {t : Token} (ts : List Token) (h : s.step? t = some s') :
    s.steps? (t :: ts) = s'.steps? ts := by
  unfold steps?
  rw [List.foldlM_cons, h]
  rfl

theorem steps?_append {s s' : State} {ts : List Token} (us : List Token)
    (h : s.steps? ts = some s') : s.steps? (ts ++ us) = s'.steps? us := by
  unfold steps? at *
  rw [List.foldlM_append, h]
  rfl

/-- Where an array may end at once, a value starts as it does after a comma. -/
theorem steps?_firstItem (j : Json) (stack : List Frame) :
    (firstItem stack).steps? (tokens j) = (value (.array [] :: stack)).steps? (tokens j) := by
  cases j with
  | array js => cases js <;> rfl
  | object fs => cases fs <;> rfl
  | null | bool | number | string => rfl

mutual

theorem steps?_tokens : ∀ (j : Json) (stack : List Frame),
    (value stack).steps? (tokens j) = some (complete j stack)
  | .null, _ | .bool _, _ | .number _, _ | .string _, _ | .array [], _ | .object [], _ => rfl
  | .array (j :: js), stack => by
    have hj := steps?_tokens j (.array [] :: stack)
    rw [← steps?_firstItem] at hj
    rw [tokens, List.append_assoc, List.cons_append, steps?_cons _ rfl, steps?_append _ hj]
    exact steps?_itemTokens js j [] stack
  | .object ((k, j) :: fs), stack => by
    have hj := steps?_tokens j (.object [] k :: stack)
    rw [tokens, List.append_assoc, List.cons_append, List.cons_append, List.cons_append,
      steps?_cons _ rfl, steps?_cons _ rfl, steps?_cons _ rfl, steps?_append _ hj]
    exact steps?_fieldTokens fs j k [] stack

theorem steps?_itemTokens : ∀ (js : List Json) (j : Json) (done : List Json) (stack : List Frame),
    (complete j (.array done :: stack)).steps? (itemTokens js ++ [.arrayEnd]) =
      some (complete (.array ((j :: done).reverse ++ js)) stack)
  | [], j, done, stack => by
    rw [List.append_nil]
    rfl
  | i :: js, j, done, stack => by
    have hi := steps?_tokens i (.array (j :: done) :: stack)
    rw [itemTokens, List.append_assoc, List.cons_append, steps?_cons _ rfl, steps?_append _ hi,
      steps?_itemTokens js i (j :: done) stack]
    simp

theorem steps?_fieldTokens : ∀ (fs : List (Option Text × Json)) (j : Json) (k : Option Text)
    (done : List (Option Text × Json)) (stack : List Frame),
    (complete j (.object done k :: stack)).steps? (fieldTokens fs ++ [.objectEnd]) =
      some (complete (.object (((k, j) :: done).reverse ++ fs)) stack)
  | [], j, k, done, stack => by
    rw [List.append_nil]
    rfl
  | (l, i) :: fs, j, k, done, stack => by
    have hi := steps?_tokens i (.object ((k, j) :: done) l :: stack)
    rw [fieldTokens, List.append_assoc, List.cons_append, List.cons_append, List.cons_append,
      steps?_cons _ rfl, steps?_cons _ rfl, steps?_cons _ rfl, steps?_append _ hi,
      steps?_fieldTokens fs i l ((k, j) :: done) stack]
    simp

end

end State

/-! ## Scanning -/

/-- The text `t` is the tokens `ts`, with spaces before them or none, and then `rest`. -/
inductive Scans : (t : Text) → (ts : List Token) → (rest : Text) → Prop
  | nil (t : Text) : Scans t [] t
  | space {c : Char} {t rest : Text} {ts : List Token} (hc : Token.isSpace c = true)
      (h : Scans t ts rest) : Scans (c :: t) ts rest
  | token {c : Char} {t t' rest : Text} {k : Token} {ts : List Token}
      (hc : Token.isSpace c = false) (hk : Token.next? (c :: t) = some (k, t'))
      (hlength : t'.length ≤ t.length) (h : Scans t' ts rest) : Scans (c :: t) (k :: ts) rest

namespace Scans

theorem append {t t' rest : Text} {ts us : List Token} (h : Scans t ts t') (h' : Scans t' us rest) :
    Scans t (ts ++ us) rest := by
  induction h with
  | nil => exact h'
  | space hc _ ih => exact space hc (ih h')
  | token hc hk hlength _ ih => exact token hc hk hlength (ih h')

theorem spaces : ∀ (s t : Text), (∀ c ∈ s, Token.isSpace c = true) → Scans (s ++ t) [] t
  | [], t, _ => nil t
  | c :: s, t, h =>
    space (h c List.mem_cons_self) (spaces s t fun d hd => h d (List.mem_cons_of_mem c hd))

end Scans

theorem run?_space {c : Char} (fuel : Nat) (s : State) (t : Text) (hc : Token.isSpace c = true) :
    run? fuel s (c :: t) = run? fuel s t := by
  cases fuel with
  | zero => rfl
  | succ fuel =>
    unfold run?
    rw [List.dropWhile_cons_of_pos hc]

theorem run?_token {c : Char} {t t' : Text} {k : Token} {s s' : State} (fuel : Nat)
    (hc : Token.isSpace c = false) (hk : Token.next? (c :: t) = some (k, t'))
    (hs : s.step? k = some s') : run? (fuel + 1) s (c :: t) = run? fuel s' t' := by
  simp [run?, hc, hk, hs]

/-- The fuel lasts, since every token takes up a character. -/
theorem run?_of_scans {t : Text} {ts : List Token} {j : Json} (h : Scans t ts []) :
    ∀ {fuel : Nat} {s : State}, t.length < fuel → s.steps? ts = some (.complete j []) →
      run? fuel s t = some j := by
  generalize hrest : ([] : Text) = rest at h
  induction h with
  | nil t =>
    intro fuel s hfuel hs
    subst hrest
    cases fuel with
    | zero => cases hfuel
    | succ fuel =>
      cases hs
      rfl
  | space hc _ ih =>
    intro fuel s hfuel hs
    rw [run?_space _ _ _ hc]
    exact ih hrest (Nat.lt_of_succ_lt hfuel) hs
  | @token c t t' rest k ts hc hk hlength _ ih =>
    intro fuel s hfuel hs
    cases fuel with
    | zero => cases hfuel
    | succ fuel =>
      cases hstep : s.step? k with
      | none => simp [State.steps?, hstep] at hs
      | some s' =>
        rw [run?_token fuel hc hk hstep]
        rw [State.steps?_cons ts hstep] at hs
        exact ih hrest (Nat.lt_of_le_of_lt hlength (Nat.lt_of_succ_lt_succ hfuel)) hs

theorem parse?_of_scans {t : Text} {j : Json} (h : Scans t (tokens j) []) : parse? t = some j :=
  run?_of_scans h (Nat.lt_succ_self _) (State.steps?_tokens j [])

end ModuleRules.Json
