import ModuleRules.Ascending
import ModuleRules.Json.Basic

/-!
# Objects in order

The order of the fields of an object says nothing, and of fields of one name
only the last counts. `Json.inOrder` gives the one form in which names ascend.
-/

namespace ModuleRules.Json

mutual

/-- The value with the fields of objects in the order of their names; of fields of one name the
last is kept. -/
def inOrder : Json → Json
  | .array js => .array (itemsInOrder js)
  | .object fields => .object (fieldsInOrder fields)
  | j => j

def itemsInOrder : List Json → List Json
  | [] => []
  | j :: js => inOrder j :: itemsInOrder js

def fieldsInOrder : List (Option Text × Json) → List (Option Text × Json)
  | [] => []
  | (k, j) :: fs =>
    Ascending.insert (fun a b => a.1.getD [] < b.1.getD []) (k, inOrder j) (fieldsInOrder fs)

end

def withFields (j : Json) (others : List (Text × Json)) : Json :=
  let fields := match j with
    | .object fields => fields
    | _ => []
  .object (fieldsInOrder (fields ++ others.map fun (k, v) => (some k, v)))

end ModuleRules.Json
