import ModuleRules.Json.Basic

/-!
# Equal values

Two values are equal if they say the same: how a number is written does not
matter, except that an integer is no double.
-/

namespace ModuleRules

/-- Equality of numbers, for which the two zeros are one. -/
def Double.isEqual : Double → Double → Bool
  | finite _ 0 _, finite _ 0 _ => true
  | nan, _ => false
  | x, y => x = y

namespace Json

def Number.isEqual (n m : Number) : Bool :=
  match n.value?, m.value? with
  | some (.integer i), some (.integer j) => i = j
  | some (.double x), some (.double y) => x.isEqual y
  | _, _ => false

mutual

def isEqual : Json → Json → Bool
  | .null, .null => true
  | .bool a, .bool b => a = b
  | .number n, .number m => n.isEqual m
  | .string t, .string u => t = u
  | .array js, .array ks => itemsEqual js ks
  | .object fs, .object gs => fieldsEqual fs gs
  | _, _ => false

def itemsEqual : List Json → List Json → Bool
  | [], [] => true
  | j :: js, k :: ks => isEqual j k && itemsEqual js ks
  | _, _ => false

def fieldsEqual : List (Option Text × Json) → List (Option Text × Json) → Bool
  | [], [] => true
  | (a, j) :: fs, (b, k) :: gs => a = b && isEqual j k && fieldsEqual fs gs
  | _, _ => false

end

end Json

end ModuleRules
