import ModuleRules.Ascending
import ModuleRules.File.Tree
import ModuleRules.Property.Basic
import ModuleRules.Toml.Parser

/-!
# Property files

A TOML document sets properties with its keys at top level and with those of
its table `properties`. All of them are strings, numbers or booleans. The
keys are set in ascending order, and those of the table where the key
`properties` has its place.
-/

namespace ModuleRules

inductive PropertyError
  | syntaxFlaw
  | notScalar (name : Text)
  | unreadable (path : Text) (fault : FileFault)
  | inFile (path : Text) (e : PropertyError)
  deriving DecidableEq, Repr

def PropertyError.message : PropertyError → Text
  | syntaxFlaw => flawDetail
  | notScalar name => "Property '" ++ name ++ "' must be a string, number or boolean"
  | unreadable path fault => "Failed to read " ++ path ++ ": " ++ fault.message
  | inFile path e => "Failed to parse " ++ path ++ ": " ++ e.message

def Toml.Scalar.text : Toml.Scalar → Text
  | string t => t
  | integer n => Text.ofInt n
  | float x => x.text
  | boolean true => "true"
  | boolean false => "false"

namespace BuildProperties

def tableName : Text := "properties"

def setScalar (p : BuildProperties) : Text × Toml → Except PropertyError BuildProperties
  | (name, .scalar s) => .ok (p.set name s.text)
  | (name, _) => .error (.notScalar name)

def ascending (es : Toml.Entries) : Toml.Entries := Ascending.ofList (fun a b => a.1 < b.1) es

def setEntry (p : BuildProperties) (e : Text × Toml) : Except PropertyError BuildProperties :=
  match e with
  | (name, .table origin es) =>
    if name = tableName then (ascending es).foldlM setScalar p
    else p.setScalar (name, .table origin es)
  | e => p.setScalar e

def ofEntries (es : Toml.Entries) : Except PropertyError BuildProperties :=
  (ascending es).foldlM setEntry {}

def ofToml (t : Text) : Except PropertyError BuildProperties :=
  match Toml.parse? t with
  | some es => ofEntries es
  | none => .error .syntaxFlaw

def ofFile (t : FileTree) (path : Text) : Except PropertyError BuildProperties :=
  match t.readText path with
  | .error fault => .error (.unreadable path fault)
  | .ok text => (ofToml text).mapError (.inFile path)

end BuildProperties

end ModuleRules
