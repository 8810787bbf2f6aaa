import ModuleRules.Json.Number

/-!
# JSON values

Objects keep their fields in order, repeated names included. A string literal
may escape a surrogate that has no partner; it is well formed but stands for
no text, which is why strings and names are optional texts.
-/

namespace ModuleRules

inductive Json
  | null
  | bool (b : Bool)
  | number (n : Json.Number)
  | string (t : Option Text)
  | array (items : List Json)
  | object (fields : List (Option Text × Json))
  deriving Repr, Inhabited

namespace Json

/-! ## Building -/

def text (t : Text) : Json := .string (some t)

def nat (n : Nat) : Json := .number ⟨false, Text.ofNat n, [], none⟩

def orNull : Option Text → Json
  | some t => text t
  | none => .null

def texts (ts : List Text) : Json := .array (ts.map text)

def field (name : Text) (j : Json) : Text × Json := (name, j)

def record (fields : List (Text × Json)) : Json := .object (fields.map fun (k, v) => (some k, v))

/-! ## Looking into a value -/

def text? : Json → Option Text
  | .string t => t
  | _ => none

def bool? : Json → Option Bool
  | .bool b => some b
  | _ => none

def items? : Json → Option (List Json)
  | .array js => some js
  | _ => none

def valuesOf (name : Text) (fields : List (Option Text × Json)) : List Json :=
  (fields.filter (·.1 == some name)).map (·.2)

mutual

def depth : Json → Nat
  | .array items => depthOfItems items + 1
  | .object fields => depthOfFields fields + 1
  | _ => 0

def depthOfItems : List Json → Nat
  | [] => 0
  | j :: js => max (depth j) (depthOfItems js)

def depthOfFields : List (Option Text × Json) → Nat
  | [] => 0
  | (_, j) :: js => max (depth j) (depthOfFields js)

end

mutual

/-- Every string is a text and every number is within the doubles. -/
def isRepresentable : Json → Bool
  | .number n => !n.overflows
  | .string t => t.isSome
  | .array items => itemsRepresentable items
  | .object fields => fieldsRepresentable fields
  | _ => true

def itemsRepresentable : List Json → Bool
  | [] => true
  | j :: js => isRepresentable j && itemsRepresentable js

def fieldsRepresentable : List (Option Text × Json) → Bool
  | [] => true
  | (k, j) :: js => k.isSome && isRepresentable j && fieldsRepresentable js

end

end Json

end ModuleRules
