import ModuleRules.Json.Basic

/-!
# Writing JSON

Two layouts: compact, without any space, and pretty, with each item and field
on a line of its own, two more blanks to the right than what holds it. Empty
arrays and objects stay on one line.
-/

namespace ModuleRules.Json

def hexDigit (n : Nat) : Char := Char.ofNat (if n < 10 then '0'.toNat + n else 'a'.toNat + (n - 10))

/-- Quotes, backslashes and control characters are escaped, all else stands for itself. -/
def escape (c : Char) : Text :=
  match c with
  | '"' => "\\\""
  | '\\' => "\\\\"
  | '\x08' => "\\b"
  | '\x0c' => "\\f"
  | '\n' => "\\n"
  | '\r' => "\\r"
  | '\t' => "\\t"
  | c =>
    if c.toNat < 0x20 then "\\u00" ++ [hexDigit (c.toNat / 16), hexDigit (c.toNat % 16)] else [c]

/-- A string that is no text is written as a surrogate alone. -/
def quote : Option Text → Text
  | some t => '"' :: t.flatMap escape ++ ['"']
  | none => "\"\\ud800\""

def Number.text (n : Number) : Text :=
  (if n.negative then ['-'] else []) ++ n.whole ++
    (if n.fraction = [] then [] else '.' :: n.fraction) ++
    match n.exponent with
    | none => []
    | some (.ofNat e) => 'e' :: Text.ofNat e
    | some (.negSucc e) => 'e' :: '-' :: Text.ofNat (e + 1)

def atomText : Json → Text
  | .null => "null"
  | .bool true => "true"
  | .bool false => "false"
  | .number n => n.text
  | .string t => quote t
  | _ => []

mutual

def compact : Json → Text
  | .array [] => "[]"
  | .array (j :: js) => '[' :: compact j ++ compactItems js ++ "]"
  | .object [] => "\x7b\x7d"
  | .object ((k, j) :: fs) => '\x7b' :: quote k ++ ':' :: compact j ++ compactFields fs ++ "\x7d"
  | j => atomText j

def compactItems : List Json → Text
  | [] => []
  | j :: js => ',' :: compact j ++ compactItems js

def compactFields : List (Option Text × Json) → Text
  | [] => []
  | (k, j) :: fs => ',' :: quote k ++ ':' :: compact j ++ compactFields fs

end

def newline (n : Nat) : Text := '\n' :: List.replicate (2 * n) ' '

mutual

/-- The layout with one item or field on each line, inside `n` others. -/
def prettyAt (n : Nat) : Json → Text
  | .array [] => "[]"
  | .array (j :: js) =>
    '[' :: newline (n + 1) ++ prettyAt (n + 1) j ++ prettyItems (n + 1) js ++ newline n ++ "]"
  | .object [] => "\x7b\x7d"
  | .object ((k, j) :: fs) =>
    '\x7b' :: newline (n + 1) ++ quote k ++ ": " ++ prettyAt (n + 1) j ++
      prettyFields (n + 1) fs ++ newline n ++ "\x7d"
  | j => atomText j

def prettyItems (n : Nat) : List Json → Text
  | [] => []
  | j :: js => ',' :: newline n ++ prettyAt n j ++ prettyItems n js

def prettyFields (n : Nat) : List (Option Text × Json) → Text
  | [] => []
  | (k, j) :: fs => ',' :: newline n ++ quote k ++ ": " ++ prettyAt n j ++ prettyFields n fs

end

def pretty (j : Json) : Text := prettyAt 0 j

end ModuleRules.Json
