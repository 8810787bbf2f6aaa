import ModuleRules.Identity
import ModuleRules.Artifact.Selector
import ModuleRules.Artifact.Pattern

/-!
# Module descriptors

A descriptor declares a module: its resources and the modules it depends on,
both in order. The operations act on every entry they are aimed at and say
how many these were; none is not an error.
-/

namespace ModuleRules

inductive Resource
  | artifact (c : Coordinate)
  | root (path : Text)
  deriving DecidableEq, Repr

/-- The text that removal patterns are held against. -/
def Resource.matchText : Resource → Text
  | artifact c => c.bareText
  | root path => path

structure Dependency where
  target : ModuleRef
  optional : Bool := false
  exported : Bool := false
  deriving DecidableEq, Repr

def Dependency.identity (d : Dependency) : ModuleId := d.target.identity

structure Descriptor where
  self : ModuleRef
  resources : List Resource := []
  dependencies : List Dependency := []
  deriving DecidableEq, Repr

/-! ## Single entries -/

namespace Dependency

/-- A dependency on `old` becomes one on `new`, with the slot written out. -/
def redirect (old new : ModuleId) (d : Dependency) : Dependency :=
  if d.identity = old then { d with target := ⟨new.name, some new.slot⟩ } else d

def markOptional (id : ModuleId) (d : Dependency) : Dependency :=
  if d.identity = id then { d with optional := true } else d

end Dependency

namespace Resource

def isSelectedBy (s : Selector) : Resource → Bool
  | artifact c => s.selects c
  | root _ => false

def setVersion (s : Selector) (version : Text) : Resource → Resource
  | artifact c => artifact (if s.selects c then { c with version := some version } else c)
  | root path => root path

end Resource

/-! ## Descriptors -/

namespace Descriptor

def identity (d : Descriptor) : ModuleId := d.self.identity

def dependency? (d : Descriptor) (id : ModuleId) : Option Dependency :=
  d.dependencies.find? (·.identity = id)

def artifact? (d : Descriptor) (group artifact : Text) : Option Coordinate :=
  d.resources.findSome? fun
    | .artifact c => if c.group = group ∧ c.artifact = artifact then some c else none
    | .root _ => none

def countOf (d : Descriptor) (id : ModuleId) : Nat := d.dependencies.countP (·.identity = id)

def replaceDependency (old new : ModuleId) (d : Descriptor) : Descriptor × Nat :=
  ({ d with dependencies := d.dependencies.map (·.redirect old new) }, d.countOf old)

def markOptional (id : ModuleId) (d : Descriptor) : Descriptor × Nat :=
  ({ d with dependencies := d.dependencies.map (·.markOptional id) }, d.countOf id)

def addDependency (target : ModuleRef) (exported : Bool) (d : Descriptor) : Descriptor :=
  { d with dependencies := d.dependencies ++ [⟨target, false, exported⟩] }

def removeResources (p : Pattern) (d : Descriptor) : Descriptor × Nat :=
  ({ d with resources := d.resources.filter fun r => !p.covers r.matchText },
    d.resources.countP fun r => p.covers r.matchText)

def setVersion (s : Selector) (version : Text) (d : Descriptor) : Descriptor × Nat :=
  ({ d with resources := d.resources.map (·.setVersion s version) },
    d.resources.countP (·.isSelectedBy s))

end Descriptor

end ModuleRules
