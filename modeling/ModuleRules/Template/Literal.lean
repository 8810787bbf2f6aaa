import ModuleRules.Json.Parser
import ModuleRules.Json.Sorted
import ModuleRules.Template.Word

/-!
# Literals of templates

A value that is written out is found by its form first: a string, an array,
an object, a number or a word. Only then is it read as JSON, which is
stricter: numbers with needless zeros, numbers beyond the doubles and halves
of surrogate pairs have the form of a value and are none.
-/

namespace ModuleRules.Template

/-! ## The form -/

/-- What may follow a backslash in a string, other than the quote and the number of a character. -/
def escapable : Text := "\\/bfnrt"

/-- What follows the rest of a string that the quote `q` ends. -/
def afterQuoted? (q : Char) : Text → Option Text
  | [] => none
  | '\\' :: 'u' :: a :: b :: c :: d :: r =>
    if (Json.Token.unit? a b c d).isSome then afterQuoted? q r else none
  | '\\' :: c :: r => if c = q ∨ c ∈ escapable then afterQuoted? q r else none
  | c :: r => if c = q then some r else if c = '\\' then none else afterQuoted? q r

def afterString? : Text → Option Text
  | '"' :: r => afterQuoted? '"' r
  | '\'' :: r => afterQuoted? '\'' r
  | _ => none

def skipExponent (t : Text) : Text :=
  match t with
  | 'E' :: r =>
    match ((Text.after? "-" r).getD r).span isDigit with
    | ([], _) => t
    | (_, r) => r
  | r => r

def afterNumber? (t : Text) : Option Text :=
  match ((Text.after? "-" t).getD t).span isDigit with
  | ([], _) => none
  | (_, r) =>
    let r := ((Text.after? "." r).map (·.dropWhile isDigit)).getD r
    endOfName? (skipExponent r)

def afterAtom? (t : Text) : Option Text :=
  (afterString? t).or ((afterNumber? t).or
    ((afterWord? "null" t).or ((afterWord? "true" t).or (afterWord? "false" t))))

/-- Goes past further entries, each after a comma; `fuel` bounds their number. -/
def skipFurther (entry : Text → Option Text) : (fuel : Nat) → Text → Text
  | 0, t => t
  | fuel + 1, t =>
    match (Text.after? "," (skipGap t)).bind fun r => entry (skipGap r) with
    | some r => skipFurther entry fuel r
    | none => t

/-- What follows the entries and the closing mark; the first entry may be missing. -/
def afterEntries? (entry : Text → Option Text) (close t : Text) : Option Text :=
  Text.after? close (skipGap (skipFurther entry t.length ((entry (skipGap t)).getD t)))

/-- What follows a literal; `fuel` bounds how deep it is nested. -/
def afterLiteral? : (fuel : Nat) → Text → Option Text
  | 0, _ => none
  | fuel + 1, t =>
    match t with
    | '[' :: r => afterEntries? (afterLiteral? fuel) "]" r
    | '\x7b' :: r =>
      let entry (t : Text) : Option Text := do
        let r ← Text.after? ":" (skipGap (← afterString? t))
        afterLiteral? fuel (skipGap r)
      afterEntries? entry "\x7d" r
    | t => afterAtom? t

/-! ## The value -/

def doubleQuoted : Text → Text
  | '\\' :: '\'' :: r => '\'' :: doubleQuoted r
  | '"' :: r => '\\' :: '"' :: doubleQuoted r
  | c :: r => c :: doubleQuoted r
  | [] => []

def maxDepth : Nat := 127

def valueOf? (written : Text) : Option Json := do
  let j ← Json.parse? <| match written with
    | '\'' :: r => '"' :: doubleQuoted r.dropLast ++ ['"']
    | t => t
  if j.isRepresentable ∧ j.depth ≤ maxDepth then some j.inOrder else none

def literal? : Read (Option Json) := fun t =>
  (afterLiteral? t.length t).map fun r => (valueOf? (t.take (t.length - r.length)), r)

end ModuleRules.Template
