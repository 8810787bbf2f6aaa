import ModuleRules.Descriptor.Json
import ModuleRules.File.Tree
import ModuleRules.Rule.Store

/-!
# Revisions

The revision of a descriptor file: its text before and after the rules for
its module, both as this library writes descriptors.
-/

namespace ModuleRules

structure Revision where
  id : ModuleId
  changes : List Change
  before : Text
  /-- Missing when no rule changed anything. -/
  after : Option Text
  deriving DecidableEq, Repr

inductive RevisionError
  | unreadable (path : Text) (fault : FileFault)
  | invalid (path : Text)
  | unwritable (path : Text) (fault : FileFault)
  deriving DecidableEq, Repr

def RevisionError.message : RevisionError → Text
  | unreadable path fault => "Failed to read file: " ++ path ++ ": " ++ fault.message
  | invalid path => "Invalid module descriptor: " ++ path ++ ": " ++ flawDetail
  | unwritable path fault => "Failed to write file: " ++ path ++ ": " ++ fault.message

namespace Revision

def of (store : RuleStore) (d : Descriptor) : Revision :=
  let (d', changes) := store.amend d
  ⟨d.identity, changes, d.render, if changes = [] then none else some d'.render⟩

def ofFile (t : FileTree) (store : RuleStore) (path : Text) : Except RevisionError Revision :=
  match t.readText path with
  | .error fault => .error (.unreadable path fault)
  | .ok text =>
    match Descriptor.parse? text with
    | none => .error (.invalid path)
    | some d => .ok (of store d)

def writeText (path text : Text) (t : FileTree) : Except RevisionError FileTree :=
  (t.write path (Text.Utf8.encode text)).mapError (.unwritable path)

end Revision

end ModuleRules
