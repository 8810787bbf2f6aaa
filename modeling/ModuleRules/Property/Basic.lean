import ModuleRules.Text.Blank

/-!
# Build properties

Properties are set one after another; the last value set under a name counts.
-/

namespace ModuleRules

abbrev Properties := Text → Option Text

def Properties.none : Properties := fun _ => Option.none

/-- Names and values in the order in which they were set, the last first. -/
structure BuildProperties where
  settings : List (Text × Text) := []
  deriving DecidableEq, Repr

namespace BuildProperties

def set (name value : Text) (p : BuildProperties) : BuildProperties := ⟨(name, value) :: p.settings⟩

def get? (p : BuildProperties) : Properties := fun name =>
  (p.settings.find? (·.1 = name)).map (·.2)

def extend (p : BuildProperties) (settings : List (Text × Text)) : BuildProperties :=
  settings.foldl (fun p (name, value) => p.set name value) p

/-- Reads `KEY=VALUE`; the key is not blank. -/
def parseSetting? (t : Text) : Option (Text × Text) :=
  match Text.splitOnce '=' t with
  | some (name, value) =>
    if Text.trim name = [] then none else some (Text.trim name, Text.trim value)
  | none => none

def settingMessage (t : Text) : Text := "expected KEY=VALUE, got '" ++ t ++ "'"

end BuildProperties

end ModuleRules
