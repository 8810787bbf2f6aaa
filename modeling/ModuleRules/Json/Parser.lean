import ModuleRules.Json.Token

/-!
# Reading JSON

A value is read by a machine with a stack: each token moves it from one state
to the next, and a text is a value when it ends with one value complete and
nothing open. The stack holds the arrays and objects that are open, each with
what it has so far, last first.
-/

namespace ModuleRules.Json

/-- An open array, or an open object with the name whose value is being read. -/
inductive Frame
  | array (done : List Json)
  | object (done : List (Option Text × Json)) (name : Option Text)
  deriving Repr

inductive State
  | value (stack : List Frame)
  /-- A value or the end of an array that is still empty. -/
  | firstItem (stack : List Frame)
  /-- A name, or the end of an object that is still empty. -/
  | firstName (stack : List Frame)
  | name (done : List (Option Text × Json)) (stack : List Frame)
  | colon (done : List (Option Text × Json)) (name : Option Text) (stack : List Frame)
  /-- A comma or the end of what is open, after a complete value. -/
  | complete (j : Json) (stack : List Frame)
  deriving Repr

namespace State

def startValue? (stack : List Frame) : Token → Option State
  | .scalar j => some (.complete j stack)
  | .string t => some (.complete (.string t) stack)
  | .arrayStart => some (.firstItem stack)
  | .objectStart => some (.firstName stack)
  | _ => none

def step? : State → Token → Option State
  | value stack, t => startValue? stack t
  | firstItem stack, .arrayEnd => some (complete (.array []) stack)
  | firstItem stack, t => startValue? (.array [] :: stack) t
  | firstName stack, .objectEnd => some (complete (.object []) stack)
  | firstName stack, .string k => some (colon [] k stack)
  | name done stack, .string k => some (colon done k stack)
  | colon done k stack, .colon => some (value (.object done k :: stack))
  | complete j (.array done :: stack), .comma => some (value (.array (j :: done) :: stack))
  | complete j (.array done :: stack), .arrayEnd =>
    some (complete (.array (j :: done).reverse) stack)
  | complete j (.object done k :: stack), .comma => some (name ((k, j) :: done) stack)
  | complete j (.object done k :: stack), .objectEnd =>
    some (complete (.object ((k, j) :: done).reverse) stack)
  | _, _ => none

end State

/-- Runs the machine to the end of the text. `fuel` bounds the number of tokens. -/
def run? : (fuel : Nat) → State → Text → Option Json
  | 0, _, _ => none
  | fuel + 1, s, t =>
    match t.dropWhile Token.isSpace with
    | [] =>
      match s with
      | .complete j [] => some j
      | _ => none
    | c :: r => do
      let (token, rest) ← Token.next? (c :: r)
      run? fuel (← s.step? token) rest

/-- The value that a text is, if it is one value with only spaces around it. -/
def parse? (t : Text) : Option Json := run? (t.length + 1) (.value []) t

end ModuleRules.Json
