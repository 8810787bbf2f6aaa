import ModuleRules.Bom.Markup

/-!
# Bills of materials

A bill of materials names a project and the dependencies it manages. It is
read from the text of its project file: the project's own elements are what
is left when comments and the sections that describe other things are taken
out; a missing group or version is that of the parent.
-/

namespace ModuleRules

structure BomDependency where
  group : Text
  artifact : Text
  version : Option Text := none
  kind : Option Text := none
  scope : Option Text := none
  classifier : Option Text := none
  deriving DecidableEq, Repr

def BomDependency.key (d : BomDependency) : Text := d.group ++ ':' :: d.artifact

structure Bom where
  group : Option Text := none
  artifact : Text
  version : Option Text := none
  dependencies : List BomDependency := []
  deriving DecidableEq, Repr

namespace Bom

open Markup

def commentMarks : Marks := ⟨"<!--", "-->"⟩

def parentMarks : Marks := .ofTag "parent"

def managementMarks : Marks := .ofTag "dependencyManagement"

def dependencyMarks : Marks := .ofTag "dependency"

/-- The sections whose elements do not describe the project itself. -/
def sectionMarks : List Marks :=
  [parentMarks, managementMarks, .ofTag "dependencies", .ofTag "build", .ofTag "profiles",
    .ofTag "properties", .ofTag "modules", .ofTag "reporting", .ofTag "distributionManagement",
    .ofTag "repositories", .ofTag "pluginRepositories"]

def dependency? (inside : Text) : Option BomDependency := do
  let group ← element? "groupId" inside
  let artifact ← element? "artifactId" inside
  return ⟨group, artifact, element? "version" inside, element? "type" inside,
    element? "scope" inside, element? "classifier" inside⟩

/-- Reads the text of a project file; nothing if the project has no name. -/
def parse? (t : Text) : Option Bom :=
  let t := remove [commentMarks] t
  let parent := ((parentMarks.next? t).map (·.1)).getD []
  let managed := ((managementMarks.next? t).map (·.1)).getD []
  let header := remove sectionMarks t
  let inherited (tag : Text) : Option Text := (element? tag header).or (element? tag parent)
  (element? "artifactId" header).map fun artifact =>
    ⟨inherited "groupId", artifact, inherited "version",
      (dependencyMarks.insides managed).filterMap dependency?⟩

def nameMissing : Text := "No project artifactId found"

def without (keys : List Text) (b : Bom) : Bom :=
  { b with dependencies := b.dependencies.filter fun d => !keys.contains d.key }

def projectName (bs : List Bom) : Text :=
  (bs.map fun b => '_' :: b.artifact).foldl (· ++ ·) "generated-project"

end Bom

end ModuleRules
