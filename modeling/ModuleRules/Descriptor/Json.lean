import ModuleRules.Descriptor.Basic
import ModuleRules.Json.Parser
import ModuleRules.Json.Printer

/-!
# Descriptors as JSON

A descriptor is an object with the fields `name`, `slot`, `resources` and
`dependencies`, and so is a dependency with `name`, `slot`, `optional` and
`export`; either may also be an array of these in this order. A resource is an
object with a field `artifact` or, failing that, `path`. All but the names
may be left out, other fields are ignored, and a slot may be null.

Written out, a missing slot and a flag that is not set are left out.
-/

namespace ModuleRules

/-! ## Writing -/

def Resource.toJson : Resource → Json
  | artifact c => .record [Json.field "artifact" (.text c.text)]
  | root path => .record [Json.field "path" (.text path)]

def ModuleRef.jsonFields (r : ModuleRef) : List (Text × Json) :=
  Json.field "name" (.text r.name) ::
    match r.slot with
    | some slot => [Json.field "slot" (.text slot)]
    | none => []

/-- A flag is written only when it is set. -/
def flagField (name : Text) (b : Bool) : List (Text × Json) :=
  if b then [(name, .bool true)] else []

def Dependency.toJson (d : Dependency) : Json :=
  .record (d.target.jsonFields ++ flagField "optional" d.optional ++ flagField "export" d.exported)

namespace Descriptor

def toJson (d : Descriptor) : Json :=
  .record (d.self.jsonFields ++
    [Json.field "resources" (.array (d.resources.map Resource.toJson)),
      Json.field "dependencies" (.array (d.dependencies.map Dependency.toJson))])

def render (d : Descriptor) : Text := d.toJson.pretty ++ ['\n']

end Descriptor

/-! ## Reading -/

namespace Json

/-- The fields of a record: those of an object whose names are texts, or the items of an array
in the order of `names`. -/
def fieldsIn? (names : List Text) : Json → Option (List (Option Text × Json))
  | .object fields => if fields.all (·.1.isSome) then some fields else none
  | .array items =>
    if items.length ≤ names.length then some ((names.map some).zip items) else none
  | _ => none

/-- Reads the field `name`, which may be missing but not repeated. -/
def field? {α : Type} (fields : List (Option Text × Json)) (name : Text) (default : Option α)
    (read : Json → Option α) : Option α :=
  match valuesOf name fields with
  | [] => default
  | [j] => read j
  | _ => none

def slot? : Json → Option (Option Text)
  | .null => some none
  | j => j.text?.map some

end Json

/-- How deep a resource may nest: reading stops at 128 levels, of which it is inside two. -/
def Resource.maxDepth : Nat := 125

def Resource.ofJson? (j : Json) : Option Resource :=
  if j.isRepresentable ∧ j.depth ≤ Resource.maxDepth then
    match j with
    | .object fields =>
      let coordinate := Json.field? fields "artifact" none fun j => do
        (Coordinate.parse (← j.text?)).toOption
      match coordinate with
      | some c => some (.artifact c)
      | none => (Json.field? fields "path" none Json.text?).map .root
    | _ => none
  else none

def Dependency.ofJson? (j : Json) : Option Dependency := do
  let fields ← j.fieldsIn? ["name", "slot", "optional", "export"]
  let name ← Json.field? fields "name" none Json.text?
  let slot ← Json.field? fields "slot" (some none) Json.slot?
  let optional ← Json.field? fields "optional" (some false) Json.bool?
  let exported ← Json.field? fields "export" (some false) Json.bool?
  return ⟨⟨name, slot⟩, optional, exported⟩

namespace Descriptor

def ofJson? (j : Json) : Option Descriptor := do
  let fields ← j.fieldsIn? ["name", "slot", "resources", "dependencies"]
  let name ← Json.field? fields "name" none Json.text?
  let slot ← Json.field? fields "slot" (some none) Json.slot?
  let resources ← Json.field? fields "resources" (some []) fun j => do
    (← j.items?).mapM Resource.ofJson?
  let dependencies ← Json.field? fields "dependencies" (some []) fun j => do
    (← j.items?).mapM Dependency.ofJson?
  return ⟨⟨name, slot⟩, resources, dependencies⟩

def parse? (t : Text) : Option Descriptor := (Json.parse? t).bind ofJson?

end Descriptor

end ModuleRules
